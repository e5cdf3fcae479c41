import Raicoin.Lib.Machine
import Raicoin.Lib.Ordered
import Raicoin.Lib.Table
import Raicoin.Node.Message.Basic

-- The peers of a node.
namespace Raicoin

open Lib

-- `UdpProxy`; the priority is computed once, from the address and two accounts.
structure Proxy where
  endpoint : Endpoint
  priority : UInt32
  deriving DecidableEq

-- The times of the steady clock are in seconds; zero is that of `time_point()`.
structure Peer where
  account : Account
  ip : UInt32
  port : UInt16
  version : UInt8
  versionMin : UInt8
  lostAcks : UInt8
  lightNode : Bool
  repWeight : Amount
  proxy : Option Proxy
  proxySecondary : Option Proxy
  timestamp : UInt64
  lastContact : Int
  lastAttempt : Int
  lastHash : BlockHash
  deriving DecidableEq

namespace Peer

-- `operator<`: the peers that are behind a proxy come first.
def Below (a b : Peer) : Prop :=
  if a.account = b.account then False
  else if a.proxy.isSome ∧ b.proxy.isNone then True
  else if a.proxy.isNone ∧ b.proxy.isSome then False
  else if a.repWeight ≠ b.repWeight then a.repWeight.toNat < b.repWeight.toNat
  else a.account.toNat < b.account.toNat

instance (a b : Peer) : Decidable (Below a b) := by
  unfold Below
  infer_instance

-- 255.255.255.255, which no datagram comes from.
def invalidIp : UInt32 := 0xffffffff

def ipOf : Option Proxy → UInt32
  | none => invalidIp
  | some proxy => proxy.endpoint.ip

def keyProxy (peer : Peer) : UInt32 := ipOf peer.proxy

def keyProxySecondary (peer : Peer) : UInt32 := ipOf peer.proxySecondary

-- The peer with one more proxy, or nothing if `SetProxy` has not taken it.
def setProxy (peer : Peer) (proxy : Proxy) : Option Peer :=
  match peer.proxy with
  | none => some { peer with proxy := some proxy }
  | some first =>
    if proxy.endpoint = first.endpoint then none
    else
      let better := match peer.proxySecondary with
        | none => true
        | some second => proxy.priority > second.priority
      if better then
        if proxy.priority > first.priority then
          some { peer with proxy := some proxy, proxySecondary := some first }
        else some { peer with proxySecondary := some proxy }
      else none

def switchProxy (peer : Peer) : Peer :=
  { peer with proxy := peer.proxySecondary, proxySecondary := none }

end Peer

-- The order of an iteration does not matter: what it looks for does not depend on it.
def accountBefore (a b : Account) : Prop := a.toNat ≤ b.toNat

instance : DecidableRel accountBefore := fun a b => inferInstanceAs (Decidable (a.toNat ≤ b.toNat))
instance : IsTrans Account accountBefore := ⟨fun _ _ _ => Nat.le_trans⟩
instance : Std.Antisymm accountBefore := ⟨fun _ _ h h' => BitVec.eq_of_toNat_eq (Nat.le_antisymm h h')⟩
instance : Std.Total accountBefore := ⟨fun a b => Nat.le_total a.toNat b.toNat⟩

-- `PeerContainer`; its indices are looked up by what they are keyed with.
abbrev PeerContainer := Table Account Peer

def PeerContainer.scan (t : PeerContainer) (wanted : Peer → Bool) : List Peer :=
  (((inOrder accountBefore t.keys).filterMap t.get)).filter wanted

-- What Keeplive works with: the steady clock, and the hash of the message for each peer.
structure KeepliveRound where
  now : Int
  hash : Account → BlockHash

-- `Peers`, without the cookies.
structure Peers where
  peers : PeerContainer
  peersLowWeight : PeerContainer
  fullNodeIndex : Finset Account

namespace Peers

def MAX_PEERS_PER_IP : Nat := 1
def MAX_PEERS_PER_PROXY : Nat := 2
def PEER_CUTOFF_TIME : Int := 300
def PEER_ATTEMPT_TIME : Int := 60
def MAX_LOST_ACKS : UInt8 := 5

def empty : Peers := ⟨.empty, .empty, ∅⟩

def lowWeightPeer (peer : Peer) : Bool := peer.repWeight.toNat < 256 * RAI

variable (s : Peers)

def query_ (account : Account) : Option Peer :=
  match s.peers.get account with
  | some peer => some peer
  | none => s.peersLowWeight.get account

def updateFullNodeIndex_ (peer : Peer) : Peers :=
  { s with fullNodeIndex :=
      if peer.lightNode then s.fullNodeIndex.erase peer.account
      else insert peer.account s.fullNodeIndex }

-- A peer is not inserted where one with its account is.
def insertInto (t : PeerContainer) (peer : Peer) : PeerContainer :=
  if t.contains peer.account then t else t.put peer.account peer

def insert_ (peer : Peer) : Peers :=
  let s := s.updateFullNodeIndex_ peer
  if lowWeightPeer peer then { s with peersLowWeight := insertInto s.peersLowWeight peer }
  else { s with peers := insertInto s.peers peer }

def remove_ (account : Account) : Peers where
  peers := s.peers.del account
  peersLowWeight := s.peersLowWeight.del account
  fullNodeIndex := s.fullNodeIndex.erase account

def modify_ (peer : Peer) : Peers :=
  let s := s.updateFullNodeIndex_ peer
  if s.peers.contains peer.account then { s with peers := s.peers.put peer.account peer }
  else if s.peersLowWeight.contains peer.account then
    { s with peersLowWeight := s.peersLowWeight.put peer.account peer }
  else s

-- How many entries of an index there are in the two containers.
def count (wanted : Peer → Bool) : Nat :=
  (s.peers.scan wanted).length + (s.peersLowWeight.scan wanted).length

def countByIp_ (ip : UInt32) : Nat := s.count fun peer => peer.ip = ip

def countByProxy_ (ip : UInt32) : Nat :=
  s.count (fun peer => peer.keyProxy = ip) + s.count fun peer => peer.keyProxySecondary = ip

-- One round of the loop over the entries of the indices.
def lesser (least : Option Peer) (peer : Peer) : Option Peer :=
  match least with
  | none => some peer
  | some found => if peer.Below found then some peer else some found

def least (entries : List Peer) : Option Peer := entries.foldl lesser none

def removeLeast (entries : List Peer) : Peers :=
  match least entries with
  | none => s
  | some peer => s.remove_ peer.account

def sharingIp (ip : UInt32) : List Peer :=
  s.peers.scan (fun peer => peer.ip = ip) ++ s.peersLowWeight.scan fun peer => peer.ip = ip

def sharingProxy (ip : UInt32) : List Peer :=
  s.peers.scan (fun peer => peer.keyProxy = ip) ++
    s.peers.scan (fun peer => peer.keyProxySecondary = ip) ++
    s.peersLowWeight.scan (fun peer => peer.keyProxy = ip) ++
    s.peersLowWeight.scan fun peer => peer.keyProxySecondary = ip

def purgeByIp_ (ip : UInt32) : Peers := s.removeLeast (s.sharingIp ip)

def purgeByProxy_ (ip : UInt32) : Peers := s.removeLeast (s.sharingProxy ip)

-- A proxy of the peer that serves too many.
def overfull (proxy : Option Proxy) : Option UInt32 :=
  match proxy with
  | none => none
  | some proxy =>
    if s.countByProxy_ proxy.endpoint.ip > MAX_PEERS_PER_PROXY then some proxy.endpoint.ip else none

-- One round of the loop of `Purge_`, or nothing if it returns.
def purgeRound (account : Account) : Option Peers :=
  match s.query_ account with
  | none => none
  | some peer =>
    if s.countByIp_ peer.ip > MAX_PEERS_PER_IP then some (s.purgeByIp_ peer.ip)
    else
      match s.overfull peer.proxy with
      | some ip => some (s.purgeByProxy_ ip)
      | none => (s.overfull peer.proxySecondary).map s.purgeByProxy_

-- The loop of `Purge_`, in at most so many rounds.
def purgeRounds (account : Account) : (rounds : Nat) → Peers → Option Peers
  | 0, _ => none
  | rounds + 1, s =>
    match s.purgeRound account with
    | none => some s
    | some next => purgeRounds account rounds next

def size : Nat := s.peers.keys.card + s.peersLowWeight.keys.card

-- Each round removes a peer, so that there are no more rounds than peers.
def purge_ (account : Account) : Peers := (purgeRounds account (s.size + 1) s).getD s

-- What `Insert` does about a peer that is known.
inductive InsertChange where
  | keep
  | replace
  | modify (peer : Peer)

def insertChange (old peer : Peer) : InsertChange :=
  match old.proxy, peer.proxy with
  | none, some _ => .keep
  | some _, none => .replace
  | none, none =>
    if old.ip < peer.ip then .keep
    else if old.ip > peer.ip then .replace
    else if old.port ≤ peer.port then .keep
    else .replace
  | some oldProxy, some proxy =>
    if old.ip = peer.ip ∧ old.port = peer.port then
      match old.setProxy proxy with
      | some peer => .modify peer
      | none => .keep
    else if proxy.priority > oldProxy.priority then .replace
    else .keep

-- What `Purge_` is called with, if it is.
def inserted (peer : Peer) : Option Peers :=
  match s.query_ peer.account with
  | none => some (s.insert_ peer)
  | some old =>
    match insertChange old peer with
    | .keep => none
    | .replace => some ((s.remove_ peer.account).insert_ peer)
    | .modify peer => some (s.modify_ peer)

def insert (peer : Peer) : Peers :=
  match s.inserted peer with
  | none => s
  | some next => next.purge_ peer.account

def setPeerWeight (account : Account) (amount : Amount) : Peers :=
  match s.query_ account with
  | none => s
  | some old =>
    let peer := { old with repWeight := amount }
    if lowWeightPeer old = lowWeightPeer peer then s.modify_ peer
    else (s.remove_ old.account).insert_ peer

def contact (now : Int) (account : Account) (timestamp : UInt64) (version versionMin : UInt8) :
    Peers :=
  match s.query_ account with
  | none => s
  | some peer => s.modify_ { peer with timestamp, lastContact := now, version, versionMin }

def validateKeepliveAck (account : Account) (hash : BlockHash) : Peers :=
  match s.query_ account with
  | none => s
  | some peer => if peer.lastHash ≠ hash then s else s.modify_ { peer with lostAcks := 0 }

-- One of the containers that `Keeplive_` is called for.
inductive PeerClass where
  | normal
  | lowWeight
  deriving DecidableEq

def container : PeerClass → PeerContainer
  | .normal => s.peers
  | .lowWeight => s.peersLowWeight

def setContainer (t : PeerContainer) : PeerClass → Peers
  | .normal => { s with peers := t }
  | .lowWeight => { s with peersLowWeight := t }

-- A peer whose time has come: it goes, or it is sent a message.
def keepliveOne (round : KeepliveRound) (class_ : PeerClass) (s : Peers) (account : Account) :
    Peers :=
  match (s.container class_).get account with
  | none => s
  | some peer =>
    if peer.lostAcks ≥ MAX_LOST_ACKS then s.remove_ account
    else
      let peer := if peer.lostAcks ≥ MAX_LOST_ACKS / 2 then peer.switchProxy else peer
      s.setContainer ((s.container class_).put account { peer with
        lastAttempt := round.now
        lastHash := round.hash account
        lostAcks := peer.lostAcks + 1 }) class_

def keeplive_ (round : KeepliveRound) (class_ : PeerClass) (s : Peers) : Peers :=
  let cutoff := ((s.container class_).scan fun peer =>
    peer.lastContact < round.now - PEER_CUTOFF_TIME).map Peer.account
  let s := cutoff.foldl remove_ s
  let due := ((s.container class_).scan fun peer =>
    peer.lastAttempt ≤ round.now - PEER_ATTEMPT_TIME).map Peer.account
  due.foldl (keepliveOne round class_) s

def keeplive (round : KeepliveRound) (s : Peers) : Peers :=
  (s.keeplive_ round .normal).keeplive_ round .lowWeight

end Peers

inductive PeersAction where
  | insert (peer : Peer)
  | setPeerWeight (account : Account) (amount : Amount)
  | contact (now : Int) (account : Account) (timestamp : UInt64) (version versionMin : UInt8)
  | validateKeepliveAck (account : Account) (hash : BlockHash)
  | keeplive (round : KeepliveRound)

namespace Peers

def take (s : Peers) : PeersAction → Peers
  | .insert peer => s.insert peer
  | .setPeerWeight account amount => s.setPeerWeight account amount
  | .contact now account timestamp version versionMin =>
    s.contact now account timestamp version versionMin
  | .validateKeepliveAck account hash => s.validateKeepliveAck account hash
  | .keeplive round => s.keeplive round

end Peers

@[reducible] def peersMachine : Machine Peers PeersAction where
  start s := s = .empty
  fits _ _ := True
  step s action := s.take action

end Raicoin
