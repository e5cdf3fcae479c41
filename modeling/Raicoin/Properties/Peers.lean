import Raicoin.Node.PeersSpec

-- How many peers a node keeps of an address, in every run of its table.
namespace Raicoin

open Lib

namespace Peers

variable {s s' : Peers} {account : Account} {peer old : Peer}

-- What the table keeps up from one action to the next.
structure Holds (s : Peers) : Prop where
  placed : s.Placed
  bounded : Bounded s.query_

theorem holds_empty : Holds .empty where
  placed := placed_empty
  bounded := by
    have hnone : ∀ {wanted : Peer → Prop} (limit : Nat), AtMost limit Peers.empty.query_ wanted := by
      intro wanted limit accounts haccounts
      have hempty : accounts = ∅ := by
        refine Finset.eq_empty_of_forall_notMem fun account haccount => ?_
        obtain ⟨peer, hpeer, -⟩ := haccounts account haccount
        cases hpeer
      rw [hempty]
      exact Nat.zero_le _
    exact ⟨fun _ => hnone _, fun _ => hnone _⟩

theorem Holds.easing (h : s.Holds) {p : Option Peer} (hsets : Sets s s' account p)
    (heases : ∀ peer, p = some peer → ∃ old, s.query_ account = some old ∧ Eases old peer) :
    s'.Holds :=
  ⟨hsets.placed, h.bounded.mono (hsets.fewer heases)⟩

theorem Holds.remove (h : s.Holds) : (s.remove_ account).Holds :=
  h.easing (remove_sets h.placed) fun _ hnone => (by cases hnone)

-- A peer that is changed in its place.
theorem Holds.modify (h : s.Holds) (hquery : s.query_ account = some old)
    (haccount : peer.account = old.account) (hweight : peer.repWeight = old.repWeight)
    (heases : Eases old peer) : (s.modify_ peer).Holds := by
  have hold : s.query_ peer.account = some old := by
    rw [haccount, h.placed.query_account hquery, hquery]
  have hclass : lowWeightPeer old = lowWeightPeer peer := by
    unfold lowWeightPeer
    rw [hweight]
  exact h.easing (modify_sets h.placed hold hclass) fun found hfound =>
    (by cases hfound; exact ⟨old, hold, heases⟩)

theorem Holds.setPeerWeight (h : s.Holds) (account : Account) (amount : Amount) :
    (s.setPeerWeight account amount).Holds := by
  unfold Peers.setPeerWeight
  cases hquery : s.query_ account with
  | none => exact h
  | some old =>
      have hold : s.query_ old.account = some old := by
        rw [h.placed.query_account hquery, hquery]
      have heases : ∀ peer, some { old with repWeight := amount } = some peer →
          ∃ found, s.query_ old.account = some found ∧ Eases found peer :=
        fun peer hpeer => (by cases hpeer; exact ⟨old, hold, rfl, fun _ => id⟩)
      dsimp only
      split_ifs with hclass
      · exact h.easing (modify_sets h.placed hold hclass) heases
      · have hremove := @remove_sets s old.account h.placed
        exact h.easing (hremove.trans (@insert_sets _ { old with repWeight := amount } hremove.placed
          (by rw [hremove.query, Function.update_self]))) heases

theorem Holds.contact (h : s.Holds) (now : Int) (account : Account) (timestamp : UInt64)
    (version versionMin : UInt8) : (s.contact now account timestamp version versionMin).Holds := by
  unfold Peers.contact
  cases hquery : s.query_ account with
  | none => exact h
  | some old => exact h.modify hquery rfl rfl ⟨rfl, fun _ => id⟩

theorem Holds.validateKeepliveAck (h : s.Holds) (account : Account) (hash : BlockHash) :
    (s.validateKeepliveAck account hash).Holds := by
  unfold Peers.validateKeepliveAck
  cases hquery : s.query_ account with
  | none => exact h
  | some old =>
      dsimp only
      split_ifs
      · exact h
      · exact h.modify hquery rfl rfl ⟨rfl, fun _ => id⟩

theorem switchProxy_eases : Eases peer peer.switchProxy := by
  refine ⟨rfl, fun ip hserves => ?_⟩
  rcases hserves with hfirst | ⟨proxy, hproxy, -⟩
  · exact .inr hfirst
  · cases hproxy

theorem query_of_container (h : s.Placed) {class_ : PeerClass}
    (hget : (s.container class_).get account = some old) : s.query_ old.account = some old := by
  cases class_ with
  | normal =>
      obtain ⟨rfl, -⟩ := h.normal _ _ hget
      exact query_eq_some.mpr (.inl hget)
  | lowWeight =>
      obtain ⟨rfl, -⟩ := h.low _ _ hget
      refine query_eq_some.mpr (.inr ⟨?_, hget⟩)
      rw [Option.eq_none_iff_forall_ne_some]
      intro other hother
      have hapart := h.apart _ _ hother
      rw [show s.peersLowWeight.get old.account = some old from hget] at hapart
      cases hapart

theorem account_of_container (h : s.Placed) {class_ : PeerClass}
    (hget : (s.container class_).get account = some old) : old.account = account := by
  cases class_ with
  | normal => exact (h.normal _ _ hget).1
  | lowWeight => exact (h.low _ _ hget).1

-- The index needs no change for a peer that is as light as it was.
theorem Holds.put (h : s.Holds) {class_ : PeerClass}
    (hget : (s.container class_).get peer.account = some old) (hweight : peer.repWeight = old.repWeight)
    (hlight : peer.lightNode = old.lightNode) (heases : Eases old peer) :
    (s.setContainer ((s.container class_).put peer.account peer) class_).Holds := by
  have haccount := account_of_container h.placed hget
  have hquery : s.query_ peer.account = some old := by
    rw [← haccount, query_of_container h.placed hget]
  have hindex : ∀ other, other ∈ s.fullNodeIndex ↔
      if other = peer.account then ∃ found, some peer = some found ∧ found.lightNode = false
      else other ∈ s.fullNodeIndex := by
    intro other
    by_cases hother : other = peer.account
    · rw [if_pos hother, hother, h.placed.index, hquery]
      simp [hlight]
    · rw [if_neg hother]
  have hclass : lowWeightPeer old = lowWeightPeer peer := by
    unfold lowWeightPeer
    rw [hweight]
  exact h.easing (put_sets h.placed hget hclass hindex) fun found hfound =>
    (by cases hfound; exact ⟨old, hquery, heases⟩)

theorem Holds.keepliveOne (h : s.Holds) (round : KeepliveRound) (class_ : PeerClass)
    (account : Account) : (keepliveOne round class_ s account).Holds := by
  unfold Peers.keepliveOne
  cases hget : (s.container class_).get account with
  | none => exact h
  | some old =>
      obtain rfl := account_of_container h.placed hget
      dsimp only
      split_ifs with hlost hswitch
      · exact h.remove
      · exact @Holds.put s { old.switchProxy with
          lastAttempt := round.now
          lastHash := round.hash old.account
          lostAcks := old.switchProxy.lostAcks + 1 } old h class_ hget rfl rfl ⟨rfl, switchProxy_eases.2⟩
      · exact @Holds.put s { old with
          lastAttempt := round.now
          lastHash := round.hash old.account
          lostAcks := old.lostAcks + 1 } old h class_ hget rfl rfl ⟨rfl, fun _ => id⟩

theorem Holds.foldl {step : Peers → Account → Peers} (accounts : List Account)
    (hstep : ∀ (s : Peers) (account : Account), s.Holds → (step s account).Holds) (h : s.Holds) :
    (accounts.foldl step s).Holds := by
  induction accounts generalizing s with
  | nil => exact h
  | cons account rest ih => exact ih (hstep s account h)

theorem Holds.keeplive_ (h : s.Holds) (round : KeepliveRound) (class_ : PeerClass) :
    (s.keeplive_ round class_).Holds := by
  unfold Peers.keeplive_
  refine Holds.foldl _ (fun s account h => h.keepliveOne round class_ account) ?_
  exact h.foldl _ fun s account h => h.remove

theorem Holds.insert (h : s.Holds) (peer : Peer) : (s.insert peer).Holds := by
  unfold Peers.insert
  cases hinserted : s.inserted peer with
  | none => exact h
  | some next =>
      obtain ⟨p, hsets⟩ := inserted_sets h.placed hinserted
      obtain ⟨hpurges, hplaced⟩ := @Placed.purge next peer.account hsets.placed
      refine ⟨hplaced, hpurges.bounded hsets.placed ?_⟩
      -- The others have not changed yet.
      rw [hsets.query, Function.update_idem]
      refine h.bounded.mono fun account found hfound => ⟨found, ?_, rfl, fun _ => id⟩
      by_cases hsame : account = peer.account
      · rw [hsame, Function.update_self] at hfound
        cases hfound
      · rwa [Function.update_of_ne hsame] at hfound

theorem Holds.take (h : s.Holds) (action : PeersAction) : (s.take action).Holds := by
  cases action with
  | insert peer => exact h.insert peer
  | setPeerWeight account amount => exact h.setPeerWeight account amount
  | contact now account timestamp version versionMin =>
      exact h.contact now account timestamp version versionMin
  | validateKeepliveAck account hash => exact h.validateKeepliveAck account hash
  | keeplive round => exact (h.keeplive_ round .normal).keeplive_ round .lowWeight

-- The bounds hold in every run. The loop of `Purge_` ends, and removes one peer in a round: the
-- least that shares the address, of which those without a proxy share 255.255.255.255.
theorem peer_table_exact {history : History Peers PeersAction}
    (hrun : peersMachine.Run (fun _ _ => True) history s) :
    Bounded s.query_ ∧ s.Placed ∧
      ∀ peer next, s.inserted peer = some next → Purges peer.account next (s.insert peer) := by
  have hholds : s.Holds := hrun.invariant (P := fun _ s => s.Holds)
    (fun s hstart => (by rw [hstart]; exact holds_empty))
    fun _ _ action _ _ _ h => h.take action
  refine ⟨hholds.bounded, hholds.placed, fun peer next hinserted => ?_⟩
  obtain ⟨_, hsets⟩ := inserted_sets hholds.placed hinserted
  rw [Peers.insert, hinserted]
  exact hsets.placed.purge.1

section Sample

def samplePeer (account : Account) (ip : UInt32) (proxy : Option Proxy) : Peer where
  account
  ip
  port := 7175
  version := 1
  versionMin := 1
  lostAcks := 0
  lightNode := false
  repWeight := 0
  proxy
  proxySecondary := none
  timestamp := 1
  lastContact := 0
  lastAttempt := 0
  lastHash := 0

-- One is behind the host 1.2.3.4, the other behind a proxy that no datagram comes from.
def proxiedPeer : Peer := samplePeer 1 0x05060708 (some ⟨⟨0x01020304, 7175⟩, 9⟩)

def unroutedPeer : Peer := samplePeer 2 0x090a0b0c (some ⟨⟨Peer.invalidIp, 7175⟩, 9⟩)

def samplePeers : Peers := (peersMachine.exec .empty [.insert proxiedPeer]).2

theorem samplePeers_run : peersMachine.Run (fun _ _ => True)
    (peersMachine.exec .empty [.insert proxiedPeer]).1 samplePeers :=
  Machine.exec_run rfl (fun _ _ _ => trivial) fun _ _ => trivial

theorem samplePeers_exact : Bounded samplePeers.query_ ∧ samplePeers.Placed ∧
    ∃ next, samplePeers.inserted unroutedPeer = some next ∧
      Purges unroutedPeer.account next (samplePeers.insert unroutedPeer) := by
  obtain ⟨hbounded, hplaced, hpurges⟩ := peer_table_exact samplePeers_run
  exact ⟨hbounded, hplaced, _, rfl, hpurges unroutedPeer _ rfl⟩

-- The first shares neither an address nor a proxy with the second, and is removed for it.
theorem bystander_removed : (∃ history, peersMachine.Run (fun _ _ => True) history samplePeers) ∧
    samplePeers.query_ proxiedPeer.account = some proxiedPeer ∧ proxiedPeer.ip ≠ unroutedPeer.ip ∧ (∀ ip, unroutedPeer.Serves ip → ¬proxiedPeer.Serves ip) ∧
    (samplePeers.insert unroutedPeer).query_ proxiedPeer.account = none := by
  refine ⟨⟨_, samplePeers_run⟩, by decide, by decide, fun ip hunrouted hproxied => ?_,
    by decide⟩
  rcases hunrouted with ⟨proxy, hproxy, rfl⟩ | ⟨proxy, hproxy, rfl⟩
  · cases hproxy
    rcases hproxied with ⟨other, hother, hip⟩ | ⟨other, hother, hip⟩
    · cases hother
      cases hip
    · cases hother
  · cases hproxy

end Sample

end Peers

end Raicoin
