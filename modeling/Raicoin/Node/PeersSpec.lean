import Mathlib.Data.List.Nodup
import Mathlib.Logic.Function.Basic
import Raicoin.Node.Peers

-- What the operations on the two containers do to the peers that they hold together.
namespace Raicoin

open Lib

namespace Peers

variable {s s' : Peers} {account : Account} {peer old : Peer}

-- Each peer is in the container of its weight, under its account, and is indexed if it is no light
-- node.
structure Placed (s : Peers) : Prop where
  normal : ∀ account peer, s.peers.get account = some peer →
    peer.account = account ∧ lowWeightPeer peer = false
  low : ∀ account peer, s.peersLowWeight.get account = some peer →
    peer.account = account ∧ lowWeightPeer peer = true
  apart : ∀ account peer, s.peers.get account = some peer → s.peersLowWeight.get account = none
  index : ∀ account, account ∈ s.fullNodeIndex ↔
    ∃ peer, s.query_ account = some peer ∧ peer.lightNode = false

theorem placed_empty : Placed .empty where
  normal _ _ h := by cases h
  low _ _ h := by cases h
  apart _ _ h := by cases h
  index account := iff_of_false (Finset.notMem_empty _) fun ⟨_, h, _⟩ => (by cases h)

theorem query_eq_some : s.query_ account = some peer ↔ s.peers.get account = some peer ∨
    s.peers.get account = none ∧ s.peersLowWeight.get account = some peer := by
  unfold query_
  cases s.peers.get account with
  | none => simp
  | some found => simp

theorem query_eq_none : s.query_ account = none ↔
    s.peers.get account = none ∧ s.peersLowWeight.get account = none := by
  unfold query_
  cases s.peers.get account with
  | none => simp
  | some found => simp

theorem Placed.query_account (h : s.Placed) (hquery : s.query_ account = some peer) :
    peer.account = account := by
  rcases query_eq_some.mp hquery with hget | ⟨-, hget⟩
  · exact (h.normal _ _ hget).1
  · exact (h.low _ _ hget).1

-- A change of one peer.
structure Sets (s s' : Peers) (account : Account) (peer : Option Peer) : Prop where
  placed : s'.Placed
  query : s'.query_ = Function.update s.query_ account peer

-- The part of a change that a container sees.
def share (class_ : PeerClass) (peer : Option Peer) : Option Peer :=
  peer.filter fun peer => lowWeightPeer peer = decide (class_ = .lowWeight)

theorem share_normal {p : Option Peer} :
    share .normal p = some peer ↔ p = some peer ∧ lowWeightPeer peer = false := by
  simp [share, Option.filter_eq_some_iff]

theorem share_low {p : Option Peer} :
    share .lowWeight p = some peer ↔ p = some peer ∧ lowWeightPeer peer = true := by
  simp [share, Option.filter_eq_some_iff]

theorem share_of_class {class_ : PeerClass} (h : lowWeightPeer peer = decide (class_ = .lowWeight)) :
    share class_ (some peer) = some peer := by
  rw [share, Option.filter_some, if_pos (decide_eq_true h)]

theorem share_of_other {class_ : PeerClass} (h : lowWeightPeer peer ≠ decide (class_ = .lowWeight)) :
    share class_ (some peer) = none := by
  rw [share, Option.filter_some, if_neg (by simpa using h)]

-- The containers and the index, key by key.
theorem sets_of {p : Option Peer} (h : s.Placed) (haccount : ∀ peer, p = some peer → peer.account = account)
    (hnormal : ∀ other, s'.peers.get other =
      if other = account then share .normal p else s.peers.get other)
    (hlow : ∀ other, s'.peersLowWeight.get other =
      if other = account then share .lowWeight p else s.peersLowWeight.get other)
    (hindex : ∀ other, other ∈ s'.fullNodeIndex ↔
      if other = account then ∃ peer, p = some peer ∧ peer.lightNode = false
      else other ∈ s.fullNodeIndex) : Sets s s' account p := by
  have hquery : s'.query_ = Function.update s.query_ account p := by
    funext other
    unfold query_
    rw [hnormal, hlow]
    by_cases hother : other = account
    · rw [if_pos hother, if_pos hother, hother, Function.update_self]
      cases p with
      | none => rfl
      | some peer =>
          cases hclass : lowWeightPeer peer with
          | true => rw [share_of_other (by simp [hclass]), share_of_class (by simp [hclass])]
          | false => rw [share_of_class (by simp [hclass])]
    · rw [if_neg hother, if_neg hother, Function.update_of_ne hother]
  refine ⟨⟨fun other found hget => ?_, fun other found hget => ?_, fun other found hget => ?_,
    fun other => ?_⟩, hquery⟩
  · rw [hnormal] at hget
    split_ifs at hget with hother
    · obtain ⟨hp, hclass⟩ := share_normal.mp hget
      exact ⟨hother ▸ haccount found hp, hclass⟩
    · exact h.normal other found hget
  · rw [hlow] at hget
    split_ifs at hget with hother
    · obtain ⟨hp, hclass⟩ := share_low.mp hget
      exact ⟨hother ▸ haccount found hp, hclass⟩
    · exact h.low other found hget
  · rw [hnormal] at hget
    rw [hlow]
    split_ifs at hget ⊢ with hother
    · obtain ⟨hp, hclass⟩ := share_normal.mp hget
      rw [Option.eq_none_iff_forall_ne_some]
      intro peer hpeer
      obtain ⟨hsame, hlowClass⟩ := share_low.mp hpeer
      rw [hp] at hsame
      cases hsame
      rw [hclass] at hlowClass
      cases hlowClass
    · exact h.apart other found hget
  · rw [hindex, hquery]
    by_cases hother : other = account
    · rw [if_pos hother, hother, Function.update_self]
    · rw [if_neg hother, Function.update_of_ne hother, h.index]

theorem mem_updateFullNodeIndex (other : Account) :
    other ∈ (s.updateFullNodeIndex_ peer).fullNodeIndex ↔
      if other = peer.account then ∃ found, some peer = some found ∧ found.lightNode = false
      else other ∈ s.fullNodeIndex := by
  unfold updateFullNodeIndex_
  by_cases hother : other = peer.account
  · cases hlight : peer.lightNode with
    | true => simp [hother, hlight]
    | false => simp [hother, hlight]
  · cases peer.lightNode with
    | true => simp [hother]
    | false => simp [hother]

theorem insertInto_get {t : PeerContainer} (hnone : t.get peer.account = none) (other : Account) :
    (insertInto t peer).get other = if other = peer.account then some peer else t.get other := by
  have hnew : ¬t.contains peer.account = true := by
    intro hcontains
    obtain ⟨found, hfound⟩ := (Table.contains_iff _ _).mp hcontains
    rw [hnone] at hfound
    cases hfound
  rw [insertInto, if_neg hnew, Table.get_put]

-- A container that has nothing of the account needs no change to show it.
theorem get_of_none {t : PeerContainer} (hnone : t.get account = none) (other : Account) :
    t.get other = if other = account then none else t.get other := by
  split_ifs with hother
  · rw [hother, hnone]
  · rfl

theorem insert_sets (h : s.Placed) (hnone : s.query_ peer.account = none) :
    Sets s (s.insert_ peer) peer.account (some peer) := by
  obtain ⟨hnormal, hlow⟩ := query_eq_none.mp hnone
  unfold insert_
  cases hclass : lowWeightPeer peer with
  | true =>
      refine sets_of h (fun found hfound => (by cases hfound; rfl)) (fun other => ?_) (fun other => ?_)
        mem_updateFullNodeIndex
      · rw [share_of_other (by simp [hclass])]
        exact get_of_none hnormal other
      · rw [share_of_class (by simp [hclass])]
        exact insertInto_get hlow other
  | false =>
      refine sets_of h (fun found hfound => (by cases hfound; rfl)) (fun other => ?_) (fun other => ?_)
        mem_updateFullNodeIndex
      · rw [share_of_class (by simp [hclass])]
        exact insertInto_get hnormal other
      · rw [share_of_other (by simp [hclass])]
        exact get_of_none hlow other

theorem remove_sets (h : s.Placed) : Sets s (s.remove_ account) account none := by
  refine sets_of h (fun found hfound => (by cases hfound)) (fun other => Table.get_del _ _ _)
    (fun other => Table.get_del _ _ _) fun other => ?_
  change other ∈ s.fullNodeIndex.erase account ↔ _
  by_cases hother : other = account
  · simp [hother]
  · simp [hother]

-- A peer that keeps its class stays in its container.
theorem put_sets {class_ : PeerClass} (h : s.Placed)
    (hold : (s.container class_).get peer.account = some old)
    (hclass : lowWeightPeer old = lowWeightPeer peer) {index : Finset Account}
    (hindex : ∀ other, other ∈ index ↔
      if other = peer.account then ∃ found, some peer = some found ∧ found.lightNode = false
      else other ∈ s.fullNodeIndex) :
    Sets s ({ s with fullNodeIndex := index }.setContainer
      ((s.container class_).put peer.account peer) class_) peer.account (some peer) := by
  cases class_ with
  | normal =>
      have hweight : lowWeightPeer peer = false := hclass ▸ (h.normal _ _ hold).2
      refine sets_of h (fun found hfound => (by cases hfound; rfl)) (fun other => ?_) (fun other => ?_)
        hindex
      · rw [share_of_class (by simp [hweight])]
        exact Table.get_put _ _ _ _
      · rw [share_of_other (by simp [hweight])]
        exact get_of_none (h.apart _ _ hold) other
  | lowWeight =>
      have hweight : lowWeightPeer peer = true := hclass ▸ (h.low _ _ hold).2
      have hnone : s.peers.get peer.account = none := by
        cases hget : s.peers.get peer.account with
        | none => rfl
        | some found =>
            have hapart := h.apart _ _ hget
            rw [show s.peersLowWeight.get peer.account = some old from hold] at hapart
            cases hapart
      refine sets_of h (fun found hfound => (by cases hfound; rfl)) (fun other => ?_) (fun other => ?_)
        hindex
      · rw [share_of_other (by simp [hweight])]
        exact get_of_none hnone other
      · rw [share_of_class (by simp [hweight])]
        exact Table.get_put _ _ _ _

theorem modify_sets (h : s.Placed) (hold : s.query_ peer.account = some old)
    (hclass : lowWeightPeer old = lowWeightPeer peer) :
    Sets s (s.modify_ peer) peer.account (some peer) := by
  unfold modify_
  rcases query_eq_some.mp hold with hget | ⟨hnone, hget⟩
  · have hcontains : (s.updateFullNodeIndex_ peer).peers.contains peer.account = true :=
      (Table.contains_iff _ _).mpr ⟨old, hget⟩
    dsimp only
    rw [if_pos hcontains]
    exact @put_sets s peer old .normal h hget hclass _ mem_updateFullNodeIndex
  · have hmissing : ¬(s.updateFullNodeIndex_ peer).peers.contains peer.account = true := by
      intro hcontains
      obtain ⟨found, hfound⟩ := (Table.contains_iff _ _).mp hcontains
      rw [show s.peers.get peer.account = some found from hfound] at hnone
      cases hnone
    have hcontains : (s.updateFullNodeIndex_ peer).peersLowWeight.contains peer.account = true :=
      (Table.contains_iff _ _).mpr ⟨old, hget⟩
    dsimp only
    rw [if_neg hmissing, if_pos hcontains]
    exact @put_sets s peer old .lowWeight h hget hclass _ mem_updateFullNodeIndex

-- The entries that a scan of one container finds.
theorem mem_scan {t : PeerContainer} {wanted : Peer → Bool} :
    peer ∈ t.scan wanted ↔ (∃ account, t.get account = some peer) ∧ wanted peer = true := by
  unfold PeerContainer.scan
  rw [List.mem_filter, List.mem_filterMap]
  refine and_congr_left fun _ => ⟨fun ⟨account, _, hget⟩ => ⟨account, hget⟩, fun ⟨account, hget⟩ => ?_⟩
  exact ⟨account, (mem_inOrder _).mpr ((Table.mem_keys _ _).mpr ⟨peer, hget⟩), hget⟩

-- Of the peers that are held, those that are wanted.
theorem Placed.mem_scans (h : s.Placed) {wanted : Peer → Bool} :
    peer ∈ s.peers.scan wanted ++ s.peersLowWeight.scan wanted ↔
      s.query_ peer.account = some peer ∧ wanted peer = true := by
  rw [List.mem_append, mem_scan, mem_scan, ← or_and_right]
  refine and_congr_left fun _ => ?_
  rw [query_eq_some]
  constructor
  · rintro (⟨account, hget⟩ | ⟨account, hget⟩)
    · obtain ⟨rfl, -⟩ := h.normal _ _ hget
      exact .inl hget
    · obtain ⟨rfl, -⟩ := h.low _ _ hget
      refine .inr ⟨?_, hget⟩
      cases hnormal : s.peers.get peer.account with
      | none => rfl
      | some found =>
          rw [h.apart _ _ hnormal] at hget
          cases hget
  · rintro (hget | ⟨-, hget⟩)
    · exact .inl ⟨_, hget⟩
    · exact .inr ⟨_, hget⟩

-- No more than so many accounts have such a peer.
def AtMost (limit : Nat) (view : Account → Option Peer) (wanted : Peer → Prop) : Prop :=
  ∀ accounts : Finset Account, (∀ account ∈ accounts, ∃ peer, view account = some peer ∧ wanted peer) →
    accounts.card ≤ limit

theorem AtMost.mono {limit : Nat} {view view' : Account → Option Peer} {wanted : Peer → Prop}
    (h : AtMost limit view wanted) (hless : ∀ account peer', view' account = some peer' →
      wanted peer' → ∃ peer, view account = some peer ∧ wanted peer) : AtMost limit view' wanted := by
  intro accounts haccounts
  refine h accounts fun account haccount => ?_
  obtain ⟨peer', hpeer', hwanted⟩ := haccounts account haccount
  exact hless account peer' hpeer' hwanted

-- The entries of the indices are as many as there are accounts, or more.
theorem Placed.atMost_of_list (h : s.Placed) {wanted : Peer → Prop} {entries : List Peer}
    (hmem : ∀ account peer, s.query_ account = some peer → wanted peer → peer ∈ entries) :
    AtMost entries.length s.query_ wanted := by
  intro accounts haccounts
  have hsubset : accounts ⊆ (entries.map Peer.account).toFinset := by
    intro account haccount
    obtain ⟨peer, hquery, hwanted⟩ := haccounts account haccount
    rw [List.mem_toFinset, List.mem_map]
    exact ⟨peer, hmem account peer hquery hwanted, h.query_account hquery⟩
  calc accounts.card ≤ (entries.map Peer.account).toFinset.card := Finset.card_le_card hsubset
    _ ≤ (entries.map Peer.account).length := List.toFinset_card_le _
    _ = entries.length := List.length_map _

theorem Placed.atMost_ip (h : s.Placed) (ip : UInt32) :
    AtMost (s.countByIp_ ip) s.query_ fun peer => peer.ip = ip := by
  have hlength : s.countByIp_ ip = (s.sharingIp ip).length := (List.length_append).symm
  rw [hlength]
  refine h.atMost_of_list fun account peer hquery hwanted => ?_
  rw [← h.query_account hquery] at hquery
  exact h.mem_scans.mpr ⟨hquery, decide_eq_true hwanted⟩

end Peers

-- One of the proxies of the peer has the address.
def Peer.Serves (ip : UInt32) (peer : Peer) : Prop :=
  (∃ proxy, peer.proxy = some proxy ∧ proxy.endpoint.ip = ip) ∨
    ∃ proxy, peer.proxySecondary = some proxy ∧ proxy.endpoint.ip = ip

namespace Peers

variable {s s' : Peers} {account : Account} {peer old : Peer}

theorem Placed.mem_sharingProxy (h : s.Placed) {ip : UInt32} :
    peer ∈ s.sharingProxy ip ↔ s.query_ peer.account = some peer ∧
      (peer.keyProxy = ip ∨ peer.keyProxySecondary = ip) := by
  have hfirst := @Placed.mem_scans s peer h fun peer => peer.keyProxy = ip
  have hsecond := @Placed.mem_scans s peer h fun peer => peer.keyProxySecondary = ip
  rw [List.mem_append, decide_eq_true_eq] at hfirst hsecond
  unfold sharingProxy
  rw [List.mem_append, List.mem_append, List.mem_append, and_or_left, ← hfirst, ← hsecond]
  tauto

theorem Placed.atMost_proxy (h : s.Placed) (ip : UInt32) :
    AtMost (s.countByProxy_ ip) s.query_ (Peer.Serves ip) := by
  have hlength : s.countByProxy_ ip = (s.sharingProxy ip).length := by
    unfold countByProxy_ count sharingProxy
    rw [List.length_append, List.length_append, List.length_append]
    omega
  rw [hlength]
  refine h.atMost_of_list fun account peer hquery hserves => ?_
  rw [← h.query_account hquery] at hquery
  refine h.mem_sharingProxy.mpr ⟨hquery, ?_⟩
  rcases hserves with ⟨proxy, hproxy, hip⟩ | ⟨proxy, hproxy, hip⟩
  · left
    rw [Peer.keyProxy, hproxy]
    exact hip
  · right
    rw [Peer.keyProxySecondary, hproxy]
    exact hip

section Least

-- One number for the three things that peers are compared by.
def rank (peer : Peer) : Nat :=
  ((if peer.proxy.isSome then 0 else 1) * 2 ^ 128 + peer.repWeight.toNat) * 2 ^ 256 +
    peer.account.toNat

theorem below_iff {a b : Peer} (hne : a.account ≠ b.account) : a.Below b ↔ rank a < rank b := by
  have hweightA := a.repWeight.isLt
  have hweightB := b.repWeight.isLt
  have haccountA := a.account.isLt
  have haccountB := b.account.isLt
  -- Without a difference of the proxies, the weights decide, and then the accounts.
  have hrest : (if a.repWeight ≠ b.repWeight then a.repWeight.toNat < b.repWeight.toNat
      else a.account.toNat < b.account.toNat) ↔
      a.repWeight.toNat * 2 ^ 256 + a.account.toNat < b.repWeight.toNat * 2 ^ 256 + b.account.toNat := by
    by_cases hsame : a.repWeight = b.repWeight
    · rw [if_neg (not_not_intro hsame), hsame]
      omega
    · have hne' : a.repWeight.toNat ≠ b.repWeight.toNat :=
        fun heq => hsame (BitVec.eq_of_toNat_eq heq)
      rw [if_pos hsame]
      omega
  unfold Peer.Below rank
  rw [if_neg hne, hrest]
  cases a.proxy with
  | none =>
      cases b.proxy with
      | none =>
          simp only [Option.isSome_none, Option.isNone_none, Bool.false_eq_true, and_true, and_false,
            if_false]
          omega
      | some proxy =>
          simp only [Option.isSome_none, Option.isNone_none, Option.isSome_some, Option.isNone_some,
            Bool.false_eq_true, and_false, if_false, and_true, if_true, false_iff]
          omega
  | some first =>
      cases b.proxy with
      | none =>
          simp only [Option.isSome_none, Option.isNone_none, Option.isSome_some, Bool.false_eq_true,
            and_self, if_true, if_false, true_iff]
          omega
      | some proxy =>
          simp only [Option.isSome_some, Option.isNone_some, Bool.false_eq_true, and_false, and_true,
            if_true, if_false]
          omega

-- The entries of an index are of different accounts, or the same.
def OneEach (entries : List Peer) : Prop :=
  ∀ a ∈ entries, ∀ b ∈ entries, a.account = b.account → a = b

theorem OneEach.below_iff {entries : List Peer} (h : OneEach entries) {a b : Peer}
    (ha : a ∈ entries) (hb : b ∈ entries) : a.Below b ↔ rank a < rank b := by
  by_cases hsame : a.account = b.account
  · obtain rfl := h a ha b hb hsame
    unfold Peer.Below
    rw [if_pos rfl]
    exact iff_of_false id (Nat.lt_irrefl _)
  · exact Peers.below_iff hsame

-- What the loop finds after the entries `seen`, of which `found` is the least.
theorem least_of {entries seen : List Peer} (h : OneEach (seen ++ entries)) {found : Peer}
    (hfound : found ∈ seen) (hrank : ∀ other ∈ seen, rank found ≤ rank other) :
    ∃ least, entries.foldl lesser (some found) = some least ∧ least ∈ seen ++ entries ∧
      ∀ other ∈ seen ++ entries, rank least ≤ rank other := by
  induction entries generalizing seen found with
  | nil =>
      rw [List.append_nil]
      exact ⟨found, rfl, hfound, hrank⟩
  | cons peer rest ih =>
      have hbelow : peer.Below found ↔ rank peer < rank found :=
        h.below_iff (List.mem_append_right _ List.mem_cons_self) (List.mem_append_left _ hfound)
      rw [List.append_cons] at h ⊢
      rw [List.foldl_cons]
      by_cases hless : peer.Below found
      · rw [lesser, if_pos hless]
        refine ih h (List.mem_append_right _ (List.mem_singleton_self _)) fun other hother => ?_
        have hlt := hbelow.mp hless
        rcases List.mem_append.mp hother with hseen | hnew
        · have hle := hrank other hseen
          omega
        · rw [List.mem_singleton.mp hnew]
      · rw [lesser, if_neg hless]
        refine ih h (List.mem_append_left _ hfound) fun other hother => ?_
        rcases List.mem_append.mp hother with hseen | hnew
        · exact hrank other hseen
        · rw [hbelow] at hless
          rw [List.mem_singleton.mp hnew]
          omega

theorem rank_inj {a b : Peer} (h : rank a = rank b) : a.account = b.account := by
  have hA := a.account.isLt
  have hB := b.account.isLt
  unfold rank at h
  refine BitVec.eq_of_toNat_eq ?_
  omega

theorem OneEach.least {entries : List Peer} (h : OneEach entries) (hne : entries ≠ []) :
    ∃ least, Peers.least entries = some least ∧ least ∈ entries ∧
      ∀ other ∈ entries, other = least ∨ least.Below other := by
  cases entries with
  | nil => exact absurd rfl hne
  | cons first rest =>
      obtain ⟨found, hleast, hmem, hrank⟩ := @least_of rest [first] h first
        (List.mem_singleton_self _) fun other hother => (by rw [List.mem_singleton.mp hother])
      refine ⟨found, hleast, hmem, fun other hother => ?_⟩
      rw [h.below_iff hmem hother]
      have hle := hrank other hother
      by_cases hsame : other.account = found.account
      · exact .inl (h other hother found hmem hsame)
      · have hneRank : rank found ≠ rank other := fun heq => hsame (rank_inj heq).symm
        right
        omega

end Least

-- A container holds one peer of an account.
theorem oneEach_of {entries : List Peer}
    (hmem : ∀ peer ∈ entries, s.query_ peer.account = some peer) : OneEach entries := by
  intro a ha b hb hsame
  have hquery := hmem a ha
  rw [hsame, hmem b hb] at hquery
  exact (Option.some_inj.mp hquery).symm

-- The peers that a proxy at the address makes share it. The indices of the proxies hold a peer
-- under `InvalidIp` for each proxy that it has not got.
def SharesProxy (ip : UInt32) (peer : Peer) : Prop :=
  peer.Serves ip ∨ ip = Peer.invalidIp ∧ (peer.proxy = none ∨ peer.proxySecondary = none)

theorem sharesProxy_iff {ip : UInt32} :
    SharesProxy ip peer ↔ peer.keyProxy = ip ∨ peer.keyProxySecondary = ip := by
  have hkey : ∀ proxy : Option Proxy, Peer.ipOf proxy = ip ↔
      (∃ found, proxy = some found ∧ found.endpoint.ip = ip) ∨ ip = Peer.invalidIp ∧ proxy = none := by
    intro proxy
    cases proxy with
    | none => simp [Peer.ipOf, eq_comm]
    | some found => simp [Peer.ipOf]
  unfold SharesProxy Peer.Serves Peer.keyProxy Peer.keyProxySecondary
  rw [hkey, hkey, and_or_left]
  exact or_or_or_comm

-- One of the addresses that the peer shares with too many, and those who share it.
inductive Crowded (s : Peers) (peer : Peer) : (Peer → Prop) → Prop where
  | ip (hcount : s.countByIp_ peer.ip > MAX_PEERS_PER_IP) :
      Crowded s peer fun other => other.ip = peer.ip
  | proxy {ip : UInt32} (hserves : peer.Serves ip) (hcount : s.countByProxy_ ip > MAX_PEERS_PER_PROXY) :
      Crowded s peer (SharesProxy ip)

-- The first in the order of the peers that are held and have the property.
structure IsLeast (s : Peers) (wanted : Peer → Prop) (least : Peer) : Prop where
  held : s.query_ least.account = some least
  wants : wanted least
  below : ∀ other, s.query_ other.account = some other → wanted other →
    other = least ∨ least.Below other

theorem removeLeast_eq {entries : List Peer} {wanted : Peer → Prop} (hsome : ∃ peer, peer ∈ entries)
    (hmem : ∀ peer, peer ∈ entries ↔ s.query_ peer.account = some peer ∧ wanted peer) :
    ∃ least, IsLeast s wanted least ∧ s.removeLeast entries = s.remove_ least.account := by
  obtain ⟨first, hfirst⟩ := hsome
  have hone : OneEach entries := oneEach_of fun peer hpeer => ((hmem peer).mp hpeer).1
  obtain ⟨least, hleast, hin, hbelow⟩ := hone.least (List.ne_nil_of_mem hfirst)
  obtain ⟨hheld, hwants⟩ := (hmem least).mp hin
  refine ⟨least, ⟨hheld, hwants, fun other hother hwanted => ?_⟩, ?_⟩
  · exact hbelow other ((hmem other).mpr ⟨hother, hwanted⟩)
  · rw [removeLeast, hleast]

theorem Placed.purgeByIp_eq (h : s.Placed) (hquery : s.query_ peer.account = some peer) :
    ∃ least, IsLeast s (fun other => other.ip = peer.ip) least ∧
      s.purgeByIp_ peer.ip = s.remove_ least.account := by
  have hmem : ∀ other, other ∈ s.sharingIp peer.ip ↔
      s.query_ other.account = some other ∧ other.ip = peer.ip := fun other => by
    rw [sharingIp, h.mem_scans, decide_eq_true_eq]
  exact removeLeast_eq ⟨peer, (hmem peer).mpr ⟨hquery, rfl⟩⟩ hmem

theorem Placed.purgeByProxy_eq (h : s.Placed) (hquery : s.query_ peer.account = some peer)
    {ip : UInt32} (hserves : peer.Serves ip) : ∃ least, IsLeast s (SharesProxy ip) least ∧
      s.purgeByProxy_ ip = s.remove_ least.account := by
  have hmem : ∀ other, other ∈ s.sharingProxy ip ↔
      s.query_ other.account = some other ∧ SharesProxy ip other := fun other => by
    rw [h.mem_sharingProxy, sharesProxy_iff]
  exact removeLeast_eq ⟨peer, (hmem peer).mpr ⟨hquery, .inl hserves⟩⟩ hmem

theorem overfull_eq_some {proxy : Option Proxy} {ip : UInt32} (h : s.overfull proxy = some ip) :
    (∃ found, proxy = some found ∧ found.endpoint.ip = ip) ∧
      s.countByProxy_ ip > MAX_PEERS_PER_PROXY := by
  cases proxy with
  | none => cases h
  | some found =>
      unfold overfull at h
      dsimp only at h
      split_ifs at h with hcount
      cases h
      exact ⟨⟨found, rfl, rfl⟩, hcount⟩

theorem overfull_eq_none {proxy : Option Proxy} {found : Proxy} (h : s.overfull proxy = none)
    (hproxy : proxy = some found) : s.countByProxy_ found.endpoint.ip ≤ MAX_PEERS_PER_PROXY := by
  subst hproxy
  unfold overfull at h
  dsimp only at h
  split_ifs at h with hcount
  exact Nat.le_of_not_lt hcount

-- The loop goes on for an address that too many share, and removes the least of these.
theorem Placed.purgeRound_eq_some (h : s.Placed) (hround : s.purgeRound account = some s') :
    ∃ peer shares least, s.query_ account = some peer ∧ Crowded s peer shares ∧
      IsLeast s shares least ∧ s' = s.remove_ least.account := by
  unfold purgeRound at hround
  cases hquery : s.query_ account with
  | none =>
      rw [hquery] at hround
      cases hround
  | some peer =>
      rw [hquery] at hround
      dsimp only at hround
      have hself : s.query_ peer.account = some peer := by
        rw [h.query_account hquery, hquery]
      by_cases hip : s.countByIp_ peer.ip > MAX_PEERS_PER_IP
      · rw [if_pos hip] at hround
        cases hround
        obtain ⟨least, hleast, heq⟩ := h.purgeByIp_eq hself
        exact ⟨peer, _, least, rfl, .ip hip, hleast, heq⟩
      · rw [if_neg hip] at hround
        cases hfirst : s.overfull peer.proxy with
        | some ip =>
            rw [hfirst] at hround
            cases hround
            obtain ⟨hserves, hcount⟩ := overfull_eq_some hfirst
            obtain ⟨least, hleast, heq⟩ := h.purgeByProxy_eq hself (.inl hserves)
            exact ⟨peer, _, least, rfl, .proxy (.inl hserves) hcount, hleast, heq⟩
        | none =>
            rw [hfirst] at hround
            obtain ⟨ip, hsecond, rfl⟩ := Option.map_eq_some_iff.mp hround
            obtain ⟨hserves, hcount⟩ := overfull_eq_some hsecond
            obtain ⟨least, hleast, heq⟩ := h.purgeByProxy_eq hself (.inr hserves)
            exact ⟨peer, _, least, rfl, .proxy (.inr hserves) hcount, hleast, heq⟩

-- And it ends when the peer is gone, or shares no address with too many.
theorem purgeRound_eq_none (hround : s.purgeRound account = none)
    (hquery : s.query_ account = some peer) {shares : Peer → Prop} : ¬Crowded s peer shares := by
  unfold purgeRound at hround
  rw [hquery] at hround
  dsimp only at hround
  split_ifs at hround with hip
  cases hfirst : s.overfull peer.proxy with
  | some ip =>
      rw [hfirst] at hround
      cases hround
  | none =>
      rw [hfirst] at hround
      have hsecond := Option.map_eq_none_iff.mp hround
      rintro (hcount | ⟨⟨proxy, hproxy, rfl⟩ | ⟨proxy, hproxy, rfl⟩, hcount⟩)
      · exact hip hcount
      · exact absurd (overfull_eq_none hfirst hproxy) (Nat.not_le_of_lt hcount)
      · exact absurd (overfull_eq_none hsecond hproxy) (Nat.not_le_of_lt hcount)

-- `Purge_` after the insertion of a peer: rounds, of which each removes one, and then an end.
inductive Purges (account : Account) : Peers → Peers → Prop where
  | done {s : Peers} (hfits : ∀ peer shares, s.query_ account = some peer → ¬Crowded s peer shares) :
      Purges account s s
  | round {s next : Peers} {peer least : Peer} {shares : Peer → Prop}
      (hquery : s.query_ account = some peer) (hcrowded : Crowded s peer shares)
      (hleast : IsLeast s shares least) (hnext : Purges account (s.remove_ least.account) next) :
      Purges account s next

theorem remove_size (h : s.query_ account = some peer) : (s.remove_ account).size < s.size := by
  have hkeys : ∀ t : PeerContainer, (t.del account).keys = t.keys.erase account := fun t => by
    ext other
    rw [Table.mem_keys, Finset.mem_erase, Table.mem_keys, Table.get_del]
    by_cases hother : other = account
    · simp [hother]
    · simp [hother]
  have hle : ∀ t : PeerContainer, (t.del account).keys.card ≤ t.keys.card := fun t => by
    rw [hkeys]
    exact Finset.card_erase_le
  have hlt : ∀ t : PeerContainer, t.get account = some peer → (t.del account).keys.card < t.keys.card :=
      fun t hget => by
    rw [hkeys]
    exact Finset.card_erase_lt_of_mem ((Table.mem_keys _ _).mpr ⟨peer, hget⟩)
  have hnormal := hle s.peers
  have hlow := hle s.peersLowWeight
  unfold size remove_
  dsimp only
  rcases query_eq_some.mp h with hget | ⟨-, hget⟩
  · have := hlt _ hget
    omega
  · have := hlt _ hget
    omega

theorem Placed.purgeRounds_purges (h : s.Placed) {rounds : Nat} (hrounds : s.size < rounds) :
    ∃ next, purgeRounds account rounds s = some next ∧ Purges account s next ∧ next.Placed := by
  induction rounds generalizing s with
  | zero => omega
  | succ rounds ih =>
      unfold purgeRounds
      cases hround : s.purgeRound account with
      | none => exact ⟨s, rfl, .done fun peer _ hquery => purgeRound_eq_none hround hquery, h⟩
      | some after =>
          obtain ⟨peer, shares, least, hquery, hcrowded, hleast, rfl⟩ := h.purgeRound_eq_some hround
          have hsmaller := remove_size hleast.held
          obtain ⟨next, hnext, hpurges, hplaced⟩ :=
            @ih (s.remove_ least.account) (remove_sets h).placed (by omega)
          exact ⟨next, hnext, .round hquery hcrowded hleast hpurges, hplaced⟩

-- The loop ends.
theorem Placed.purge (h : s.Placed) : Purges account s (s.purge_ account) ∧ (s.purge_ account).Placed := by
  obtain ⟨next, hnext, hpurges, hplaced⟩ := @Placed.purgeRounds_purges s account h _ (Nat.lt_succ_self _)
  rw [purge_, hnext]
  exact ⟨hpurges, hplaced⟩

-- The bounds of the two containers together.
structure Bounded (view : Account → Option Peer) : Prop where
  ip : ∀ ip, AtMost MAX_PEERS_PER_IP view fun peer => peer.ip = ip
  proxy : ∀ ip, AtMost MAX_PEERS_PER_PROXY view (Peer.Serves ip)

-- No peer has an address that it had not.
def Fewer (view' view : Account → Option Peer) : Prop :=
  ∀ account peer', view' account = some peer' → ∃ peer, view account = some peer ∧
    peer'.ip = peer.ip ∧ ∀ ip, peer'.Serves ip → peer.Serves ip

theorem Bounded.mono {view view' : Account → Option Peer} (h : Bounded view)
    (hfewer : Fewer view' view) : Bounded view' where
  ip ip := (h.ip ip).mono fun account peer' hpeer' hip => by
    obtain ⟨peer, hpeer, hsame, -⟩ := hfewer account peer' hpeer'
    exact ⟨peer, hpeer, hsame.symm.trans hip⟩
  proxy ip := (h.proxy ip).mono fun account peer' hpeer' hserves => by
    obtain ⟨peer, hpeer, -, hsame⟩ := hfewer account peer' hpeer'
    exact ⟨peer, hpeer, hsame ip hserves⟩

-- A change that gives no peer an address.
def Eases (old peer : Peer) : Prop := peer.ip = old.ip ∧ ∀ ip, peer.Serves ip → old.Serves ip

theorem Sets.fewer {p : Option Peer} (h : Sets s s' account p)
    (heases : ∀ peer, p = some peer → ∃ old, s.query_ account = some old ∧ Eases old peer) :
    Fewer s'.query_ s.query_ := by
  intro other peer' hpeer'
  rw [h.query] at hpeer'
  by_cases hother : other = account
  · rw [hother, Function.update_self] at hpeer'
    obtain ⟨old, hold, hip, hserves⟩ := heases peer' hpeer'
    exact ⟨old, hother ▸ hold, hip, hserves⟩
  · rw [Function.update_of_ne hother] at hpeer'
    exact ⟨peer', hpeer', rfl, fun _ => id⟩

theorem Sets.trans {s'' : Peers} {p q : Option Peer} (h : Sets s s' account p)
    (h' : Sets s' s'' account q) : Sets s s'' account q :=
  ⟨h'.placed, by rw [h'.query, h.query, Function.update_idem]⟩

-- What holds without one peer, holds without it and another.
theorem fewer_without (h : s.Placed) (other : Account) :
    Fewer (Function.update (s.remove_ other).query_ account none)
      (Function.update s.query_ account none) := by
  rw [(@remove_sets s other h).query]
  intro found peer hpeer
  refine ⟨peer, ?_, rfl, fun _ => id⟩
  by_cases hfound : found = account
  · rw [hfound, Function.update_self] at hpeer
    cases hpeer
  · rw [Function.update_of_ne hfound] at hpeer ⊢
    by_cases hother : found = other
    · rw [hother, Function.update_self] at hpeer
      cases hpeer
    · rwa [Function.update_of_ne hother] at hpeer

-- The bounds of the others hold all the time, and at the end those of the peer.
theorem Purges.bounded {next : Peers} (h : Purges account s next) (hplaced : s.Placed)
    (hothers : Bounded (Function.update s.query_ account none)) : Bounded next.query_ := by
  induction h with
  | @round s next peer least shares _ _ _ _ ih =>
      exact ih (remove_sets hplaced).placed (hothers.mono (fewer_without hplaced _))
  | @done s hfits =>
      -- An account that has such a peer is another one, if this peer is none.
      have hother : ∀ {wanted : Peer → Prop} {limit : Nat},
          AtMost limit (Function.update s.query_ account none) wanted →
          (∀ peer, s.query_ account = some peer → ¬wanted peer) → AtMost limit s.query_ wanted := by
        intro wanted limit hlimit hnot
        refine hlimit.mono fun found peer hpeer hwanted => ⟨peer, ?_, hwanted⟩
        rw [Function.update_of_ne]
        · exact hpeer
        · rintro rfl
          exact hnot peer hpeer hwanted
      constructor
      · intro ip
        by_cases hhas : ∃ peer, s.query_ account = some peer ∧ peer.ip = ip
        · obtain ⟨peer, hquery, rfl⟩ := hhas
          have hcount := Nat.le_of_not_lt fun hcount => hfits peer _ hquery (.ip hcount)
          exact fun accounts haccounts => (hplaced.atMost_ip _ accounts haccounts).trans hcount
        · exact hother (hothers.ip ip) fun peer hquery hip => hhas ⟨peer, hquery, hip⟩
      · intro ip
        by_cases hhas : ∃ peer, s.query_ account = some peer ∧ peer.Serves ip
        · obtain ⟨peer, hquery, hserves⟩ := hhas
          have hcount := Nat.le_of_not_lt fun hcount => hfits peer _ hquery (.proxy hserves hcount)
          exact fun accounts haccounts => (hplaced.atMost_proxy _ accounts haccounts).trans hcount
        · exact hother (hothers.proxy ip) fun peer hquery hserves => hhas ⟨peer, hquery, hserves⟩

theorem setProxy_keeps {proxy : Proxy} (h : old.setProxy proxy = some peer) :
    peer.account = old.account ∧ peer.repWeight = old.repWeight := by
  unfold Peer.setProxy at h
  cases hproxy : old.proxy with
  | none =>
      rw [hproxy] at h
      cases h
      exact ⟨rfl, rfl⟩
  | some first =>
      rw [hproxy] at h
      dsimp only at h
      split_ifs at h
      · cases h
        exact ⟨rfl, rfl⟩
      · cases h
        exact ⟨rfl, rfl⟩

theorem inserted_sets (h : s.Placed) {next : Peers} (hinserted : s.inserted peer = some next) :
    ∃ p, Sets s next peer.account p := by
  unfold inserted at hinserted
  cases hquery : s.query_ peer.account with
  | none =>
      rw [hquery] at hinserted
      cases hinserted
      exact ⟨_, insert_sets h hquery⟩
  | some old =>
      rw [hquery] at hinserted
      dsimp only at hinserted
      cases hchange : insertChange old peer with
      | keep =>
          rw [hchange] at hinserted
          cases hinserted
      | replace =>
          rw [hchange] at hinserted
          cases hinserted
          have hremove := @remove_sets s peer.account h
          exact ⟨_, hremove.trans (insert_sets hremove.placed
            (by rw [hremove.query, Function.update_self]))⟩
      | modify changed =>
          rw [hchange] at hinserted
          cases hinserted
          obtain ⟨proxy, hset⟩ : ∃ proxy, old.setProxy proxy = some changed := by
            unfold insertChange at hchange
            split at hchange
            · cases hchange
            · cases hchange
            · split_ifs at hchange
            · rename_i oldProxy proxy hold hproxy
              split_ifs at hchange
              cases hset : old.setProxy proxy with
              | none =>
                  rw [hset] at hchange
                  cases hchange
              | some found =>
                  rw [hset] at hchange
                  cases hchange
                  exact ⟨proxy, hset⟩
          obtain ⟨haccount, hweight⟩ := setProxy_keeps hset
          have hsame : changed.account = peer.account := haccount.trans (h.query_account hquery)
          refine ⟨some changed, hsame ▸ modify_sets h (hsame ▸ hquery) ?_⟩
          unfold lowWeightPeer
          rw [hweight]

end Peers

end Raicoin
