import Raicoin.Validator.MessagesSpec
import Raicoin.Validator.WeightSign

-- Whose signer a bridge validator certifies.
namespace Raicoin.Validator

open Lib

-- The signer of an account on Raicoin, but for the genesis account.
def Genesis.signerOf (genesis : Genesis) (bindings : Account → Option SignerAddress)
    (account : Account) : Option SignerAddress :=
  if account = genesis.validator then some genesis.signer else bindings account

structure Certified (blake2b : List UInt8 → BitVec 40) (genesis : Genesis) (s : Signed) : Prop where
  signer : genesis.signerOf s.bindings s.submit.validator = some s.submit.signer
  weight : s.submit.weight ≤ s.snapshot.weight blake2b s.submit.validator
  epoch : s.submit.epoch = s.snapshot.epoch

-- What the program takes for the signer of the account that sent a message.
def EvmChainValidator.signerOf (self : EvmChainValidator) (bindings : Account → Option SignerAddress)
    (source : Account) : Option SignerAddress :=
  if self.genesisValidator = some source then self.genesisSigner else bindings source

-- A request that passes the checks which do not depend on who has sent it.
structure Passes (blake2b : List UInt8 → BitVec 40) (s : BridgeState) (m : WeightSignMessage)
    (validator signer : Uint256) : Prop where
  is_request : m.isRequest = true
  connected : s.node.account.isSome
  own_signer : s.validator.signer.isSome
  validator_text : m.validator = .text (uint256ToHex validator.toNat)
  signer_text : m.signer = .text (uint256ToHex signer.toNat)
  snapshot : ∃ snapshot, s.node.snapshot = some snapshot ∧ m.epoch = snapshot.epoch ∧
    m.weight ≤ snapshot.weight blake2b validator
  signer_lt : signer.toNat < 2 ^ 160

-- Such a request, if it names what is taken for the sender's signer, is about the sender or about
-- an account with the same signer. The genesis account does not ask before it has been read,
-- unless it has bound the genesis signer.
def NamesOwn (blake2b : List UInt8 → BitVec 40) (genesis : Genesis) (s : BridgeState) :
    BridgeAction → Prop
  | .crossChain nodeAccount bindings source destination payload =>
    ∀ m rest validator signer, destination = nodeAccount →
      WeightSignMessage.deserialize payload = .ok m rest → Passes blake2b s m validator signer →
        s.validator.signerOf bindings source = some signer →
          (validator = source ∨
            genesis.signerOf bindings validator = genesis.signerOf bindings source) ∧
          (source = genesis.validator →
            s.validator.genesisValidator = some source ∨ bindings source = some genesis.signer)
  | _ => True

section Signing

variable {blake2b : List UInt8 → BitVec 40} {genesis : Genesis}

theorem uint256ToHex_injective {u v : Uint256} (h : uint256ToHex u.toNat = uint256ToHex v.toNat) :
    u = v := by
  have hu := @Value.uint256_hex (fun _ => 0) u
  rw [h, Value.uint256_hex] at hu
  exact (Option.some.inj hu).symm

theorem uint256ToHex_ne_nil (value : Nat) : uint256ToHex value ≠ [] :=
  List.append_ne_nil_of_left_ne_nil (by decide) _

-- The text that the signer of the sender is compared with.
private def signerText : Option SignerAddress → Text
  | some signer => uint256ToHex signer.toNat
  | none => []

-- What is known of a request that is signed.
structure Granted (blake2b : List UInt8 → BitVec 40) (s : BridgeState) (nodeAccount : Account)
    (bindings : Account → Option SignerAddress) (source destination : Account)
    (payload : List UInt8) (submit : SubmitValidator) : Prop where
  destination : destination = nodeAccount
  request : ∃ m rest, WeightSignMessage.deserialize payload = .ok m rest ∧
    Passes blake2b s m submit.validator submit.signer ∧ submit.weight = m.weight ∧
    submit.epoch = m.epoch
  signer : s.validator.signerOf bindings source = some submit.signer

theorem processWeightSignRequest_granted {s : BridgeState} {sourceSigner : Text}
    {m : WeightSignMessage} {submit : SubmitValidator} (hm : m.Canonical) (hrequest : m.isRequest = true)
    (h : processWeightSignRequest blake2b s.node s.validator sourceSigner m = some submit) :
    Passes blake2b s m submit.validator submit.signer ∧ submit.weight = m.weight ∧
      submit.epoch = m.epoch ∧ sourceSigner = uint256ToHex submit.signer.toNat := by
  obtain ⟨_, haccount, h⟩ := Option.bind_eq_some_iff.mp h
  obtain ⟨snapshot, hsnapshot, h⟩ := Option.bind_eq_some_iff.mp h
  obtain ⟨_, hown, h⟩ := Option.bind_eq_some_iff.mp h
  split at h
  · cases h
  rename_i hsource
  split at h
  · cases h
  rename_i hepoch
  obtain ⟨validator, hvalidator, h⟩ := Option.bind_eq_some_iff.mp h
  obtain ⟨signer, hsigner, h⟩ := Option.bind_eq_some_iff.mp h
  split at h
  · cases h
  rename_i hweight
  split at h
  · cases h
  rename_i hshort
  cases h
  obtain ⟨v, hv⟩ := hm.validator
  obtain ⟨u, hu⟩ := hm.signer
  rw [hv, Value.uint256_hex] at hvalidator
  rw [hu, Value.uint256_hex] at hsigner
  cases hvalidator
  cases hsigner
  rw [hu, not_not, Value.text.injEq] at hsource
  exact ⟨⟨hrequest, Option.isSome_iff_exists.mpr ⟨_, haccount⟩,
    Option.isSome_iff_exists.mpr ⟨_, hown⟩, hv, hu,
    ⟨snapshot, hsnapshot, not_not.mp hepoch, Nat.not_lt.mp hweight⟩, Nat.not_le.mp hshort⟩,
    rfl, rfl, hsource⟩

-- Only the reader of the messages about weights returns one of these.
private theorem weightSign_of_message {type : CrossChainMessageType} {payload rest : List UInt8}
    {m : WeightSignMessage}
    (h : CrossChainMessage.deserialize blake2b type payload = .ok (.weightSign m) rest) :
    WeightSignMessage.deserialize payload = .ok m rest := by
  cases type with
  | weightSign =>
      obtain ⟨_, _, hfirst, hread⟩ := (Process.bind_eq_ok _ _ _ _ _).mp h
      obtain ⟨heq, rfl⟩ := (Process.pure_eq_ok _ _ _ _).mp hread
      cases heq
      exact hfirst
  | transferSign =>
      obtain ⟨_, _, -, hread⟩ := (Process.bind_eq_ok _ _ _ _ _).mp h
      cases ((Process.pure_eq_ok _ _ _ _).mp hread).1
  | creationSign =>
      obtain ⟨_, _, -, hread⟩ := (Process.bind_eq_ok _ _ _ _ _).mp h
      cases ((Process.pure_eq_ok _ _ _ _).mp hread).1
  | upgradeSign =>
      obtain ⟨_, _, -, hread⟩ := (Process.bind_eq_ok _ _ _ _ _).mp h
      cases ((Process.pure_eq_ok _ _ _ _).mp hread).1
  | updateTokenVolatile =>
      obtain ⟨_, _, -, hread⟩ := (Process.bind_eq_ok _ _ _ _ _).mp h
      cases ((Process.pure_eq_ok _ _ _ _).mp hread).1

-- The text that a signer's account was compared by tells what was taken for its signer.
private theorem signerOf_of_text {self : EvmChainValidator} {source : Account}
    {bindings : Account → Option SignerAddress} {text : Text} {signer : SignerAddress}
    (htext : self.sourceSigner source (signerText (bindings source)) = some text)
    (hsigner : text = uint256ToHex signer.toNat) :
    self.signerOf bindings source = some signer := by
  unfold EvmChainValidator.sourceSigner at htext
  unfold EvmChainValidator.signerOf
  split at htext
  · rename_i hgenesis
    obtain ⟨own, hown, rfl⟩ := Option.map_eq_some_iff.mp htext
    rw [if_pos hgenesis, hown, uint256ToHex_injective hsigner]
  · rename_i hother
    rw [if_neg hother]
    obtain rfl := Option.some.inj htext
    cases hbound : bindings source with
    | none =>
        rw [hbound] at hsigner
        exact absurd hsigner.symm (uint256ToHex_ne_nil _)
    | some own =>
        rw [hbound] at hsigner
        rw [uint256ToHex_injective hsigner]

private theorem processCrosschainMessage_some {nodeAccount source destination : Account}
    {bindings : Account → Option SignerAddress} {payload : List UInt8} {r : Attached}
    (h : processCrosschainMessage nodeAccount bindings source destination payload = some r) :
    destination = nodeAccount ∧ r = ⟨source, signerText (bindings source), payload⟩ := by
  unfold processCrosschainMessage at h
  split at h
  · cases h
  · rename_i hdestination
    refine ⟨not_not.mp hdestination, ?_⟩
    cases hsigner : bindings source with
    | none => rw [hsigner] at h; exact (Option.some.inj h).symm
    | some signer => rw [hsigner] at h; exact (Option.some.inj h).symm

theorem signing_granted {s : BridgeState} {nodeAccount source destination : Account}
    {bindings : Account → Option SignerAddress} {payload : List UInt8} {submit : SubmitValidator}
    (h : s.signing blake2b nodeAccount bindings source destination payload = some submit) :
    Granted blake2b s nodeAccount bindings source destination payload submit := by
  obtain ⟨r, hr, h⟩ := Option.bind_eq_some_iff.mp h
  obtain ⟨hdestination, rfl⟩ := processCrosschainMessage_some hr
  obtain ⟨first, -, h⟩ := Option.bind_eq_some_iff.mp h
  obtain ⟨type, -, h⟩ := Option.bind_eq_some_iff.mp h
  split at h
  · rename_i message rest hread
    obtain ⟨text, htext, h⟩ := Option.bind_eq_some_iff.mp h
    cases message with
    | weightSign m =>
        change (if m.isRequest then _ else none) = some submit at h
        split at h
        · rename_i hrequest
          have hweight := weightSign_of_message hread
          have hcanonical := (@WeightSignMessage.converts blake2b).canonical_of_read hweight
          obtain ⟨hpasses, hsame, hepoch, htold⟩ :=
            processWeightSignRequest_granted hcanonical hrequest h
          exact ⟨hdestination, ⟨m, rest, hweight, hpasses, hsame, hepoch⟩,
            signerOf_of_text htext htold⟩
        · cases h
    | transferSign m => cases h
    | creationSign m => cases h
    | upgradeSign m => cases h
    | updateTokenVolatile m => cases h
  · cases h

-- What has been read from the contract is the contract's.
structure Genesis.Known (genesis : Genesis) (known : EvmChainValidator) : Prop where
  account_eq : ∀ account, known.genesisValidator = some account → account = genesis.validator
  signer_eq : ∀ signer, known.genesisSigner = some signer → signer = genesis.signer

-- The program is right about the sender's signer, but for the genesis account that it has not read.
theorem Genesis.Known.signerOf {self : EvmChainValidator} (h : genesis.Known self)
    {bindings : Account → Option SignerAddress} {source : Account} {signer : SignerAddress}
    (hread : source = genesis.validator →
      self.genesisValidator = some source ∨ bindings source = some genesis.signer)
    (hsigner : self.signerOf bindings source = some signer) :
    genesis.signerOf bindings source = some signer := by
  unfold EvmChainValidator.signerOf at hsigner
  unfold Genesis.signerOf
  split at hsigner
  · rename_i hsome
    rw [if_pos (h.account_eq source hsome), h.signer_eq signer hsigner]
  · rename_i hunread
    by_cases hgenesis : source = genesis.validator
    · have hbound := (hread hgenesis).resolve_left hunread
      rw [if_pos hgenesis, ← hbound, hsigner]
    · rw [if_neg hgenesis, hsigner]

-- A signed request is certified rightly if it is about an account with the sender's signer.
theorem granted_certified {s : BridgeState} {nodeAccount source destination : Account}
    {bindings : Account → Option SignerAddress} {payload : List UInt8} {submit : SubmitValidator}
    {snapshot : Snapshot} (hknown : genesis.Known s.validator)
    (hsnapshot : s.node.snapshot = some snapshot)
    (h : Granted blake2b s nodeAccount bindings source destination payload submit)
    (howns : NamesOwn blake2b genesis s
      (.crossChain nodeAccount bindings source destination payload)) :
    Certified blake2b genesis ⟨submit, bindings, snapshot⟩ := by
  obtain ⟨m, rest, hread, hpasses, hweight, hepoch⟩ := h.request
  obtain ⟨_, hsame, hsameEpoch, hle⟩ := hpasses.snapshot
  cases hsame.symm.trans hsnapshot
  obtain ⟨hnamed, hgenesis⟩ := howns m rest _ _ h.destination hread hpasses h.signer
  have hsource := hknown.signerOf hgenesis h.signer
  refine ⟨?_, hweight ▸ hle, hepoch.trans hsameEpoch⟩
  rcases hnamed with hsender | hshared
  · exact hsender ▸ hsource
  · exact hshared.trans hsource

end Signing

-- In every run in which the requests that pass are about accounts with the signers of their
-- senders, all that is signed certifies the signer of the account that it names.
theorem signers_certified {blake2b : List UInt8 → BitVec 40} {genesis : Genesis}
    {history : History BridgeState BridgeAction} {s : BridgeState}
    (h : (bridgeMachine blake2b genesis).Run
      (fun history _ => ∀ taken ∈ history, NamesOwn blake2b genesis taken.1 taken.2) history s) :
    ∀ signed ∈ s.signed, Certified blake2b genesis signed := by
  have hall : genesis.Known s.validator ∧ ∀ signed ∈ s.signed, Certified blake2b genesis signed := by
    refine h.invariant (P := fun _ s => genesis.Known s.validator ∧
      ∀ signed ∈ s.signed, Certified blake2b genesis signed)
      (fun s hstart => ?_) fun history s action _ _ howns ⟨hknown, ih⟩ => ?_
    · obtain ⟨hsigned, hvalidator, hsigner⟩ := hstart
      refine ⟨⟨?_, ?_⟩, ?_⟩
      · rw [hvalidator]
        exact fun account hsome => absurd hsome (Option.some_ne_none account).symm
      · rw [hsigner]
        exact fun signer hsome => absurd hsome (Option.some_ne_none signer).symm
      · rw [hsigned]
        exact fun signed hmem => absurd hmem List.not_mem_nil
    · have hnames := howns (s, action) List.mem_cons_self
      cases action with
      | crossChain nodeAccount bindings source destination payload =>
          change genesis.Known (s.step blake2b genesis (.crossChain nodeAccount bindings source
            destination payload)).validator ∧ ∀ signed ∈ (s.step blake2b genesis
              (.crossChain nodeAccount bindings source destination payload)).signed, _
          unfold BridgeState.step
          dsimp only
          split
          · rename_i snapshot submit hsnapshot hsigning
            refine ⟨hknown, fun signed hmem => ?_⟩
            rcases List.mem_cons.mp hmem with rfl | hmem
            · exact granted_certified hknown hsnapshot (signing_granted hsigning) hnames
            · exact ih signed hmem
          · exact ⟨hknown, ih⟩
      | connect => exact ⟨hknown, ih⟩
      | nodeAccountAck account => exact ⟨hknown, ih⟩
      | weightSnapshotAck snapshot => exact ⟨hknown, ih⟩
      | getGenesisValidator =>
          exact ⟨⟨fun account hsome => (Option.some.inj hsome).symm, hknown.signer_eq⟩, ih⟩
      | getGenesisSigner =>
          exact ⟨⟨hknown.account_eq, fun signer hsome => (Option.some.inj hsome).symm⟩, ih⟩
  exact hall.2

section Stranger

-- Account 3, whose signer is 0x55, asks for a signature about another account or itself.
def bridgeGenesis : Genesis := ⟨9, 0x99⟩

def bridgeBindings : Account → Option SignerAddress := fun account =>
  if account = 2 then some 0x66 else if account = 3 then some 0x55 else none

def bridgeSnapshot : Snapshot :=
  ⟨7, (Table.empty.put (Account.encode (fun _ => 0) 2) 10).put (Account.encode (fun _ => 0) 3) 10⟩

def requestFor (account weight : Nat) : List UInt8 :=
  [1, 1] ++ List.replicate 31 0 ++ [UInt8.ofNat account] ++ List.replicate 31 0 ++ [0x55] ++
    List.replicate 15 0 ++ [UInt8.ofNat weight] ++ [0, 0, 0, 7]

def bridgeStart : BridgeState := ⟨⟨none, none⟩, ⟨some 0x11, none, none⟩, []⟩

-- The first request is about account 2, with more than this account weighs.
def bridgeActions (account : Nat) : List BridgeAction :=
  [.connect, .nodeAccountAck 1, .weightSnapshotAck bridgeSnapshot, .getGenesisValidator,
    .getGenesisSigner, .crossChain 1 bridgeBindings 3 1 (requestFor 2 11),
    .crossChain 1 bridgeBindings 3 1 (requestFor account 10)]

def bridgeRun (account : Nat) : History BridgeState BridgeAction × BridgeState :=
  (bridgeMachine (fun _ => 0) bridgeGenesis).exec bridgeStart (bridgeActions account)

theorem bridgeRun_signed :
    (bridgeRun 2).2.signed = [⟨⟨2, 0x55, 10, 7⟩, bridgeBindings, bridgeSnapshot⟩] ∧
      (bridgeRun 3).2.signed = [⟨⟨3, 0x55, 10, 7⟩, bridgeBindings, bridgeSnapshot⟩] :=
  ⟨rfl, rfl⟩

-- The signature that it gets puts 0x55 in the place of the signer of account 2.
theorem stranger_certified :
    ¬∀ history s, (bridgeMachine (fun _ => 0) bridgeGenesis).Run (fun _ _ => True) history s →
      ∀ signed ∈ s.signed, Certified (fun _ => 0) bridgeGenesis signed := by
  intro h
  have hrun : (bridgeMachine (fun _ => 0) bridgeGenesis).Run (fun _ _ => True) (bridgeRun 2).1
      (bridgeRun 2).2 :=
    Machine.exec_run ⟨rfl, rfl, rfl⟩ (fun _ _ _ => trivial) fun _ _ => trivial
  have hcertified := h _ _ hrun ⟨⟨2, 0x55, 10, 7⟩, bridgeBindings, bridgeSnapshot⟩
    (by rw [bridgeRun_signed.1]; exact List.mem_singleton_self _)
  exact absurd hcertified.signer (by decide)

-- What a request holds, as far as it is asked for here.
private theorem request_read {account weight : Nat} {m m' : WeightSignMessage} {rest : List UInt8}
    {validator : Uint256} (hread : WeightSignMessage.deserialize (requestFor account weight) = .ok m [])
    (hread' : WeightSignMessage.deserialize (requestFor account weight) = .ok m' rest)
    (hm : m.validator = .text (uint256ToHex validator.toNat)) {other signer : Uint256} {s : BridgeState}
    (hpasses : Passes (fun _ => 0) s m' other signer) : other = validator ∧ m'.weight = m.weight := by
  cases hread.symm.trans hread'
  have hsame := hpasses.validator_text
  rw [hm, Value.text.injEq] at hsame
  exact ⟨(uint256ToHex_injective hsame).symm, rfl⟩

theorem ownRequest_names (s : BridgeState) : NamesOwn (fun _ => 0) bridgeGenesis s
    (.crossChain 1 bridgeBindings 3 1 (requestFor 3 10)) := by
  intro m rest validator signer _ hread hpasses _
  have hvalue : ∃ m', WeightSignMessage.deserialize (requestFor 3 10) = .ok m' [] ∧
      m'.validator = .text (uint256ToHex (3 : Uint256).toNat) := ⟨_, rfl, rfl⟩
  obtain ⟨m', hread', hthree⟩ := hvalue
  obtain ⟨hvalidator, -⟩ := request_read hread' hread hthree hpasses
  exact ⟨.inl hvalidator, fun hgenesis => absurd hgenesis (by decide)⟩

-- A request that is refused may be about anyone.
theorem heavyRequest_names {s : BridgeState}
    (hsnapshot : ∀ snapshot, s.node.snapshot = some snapshot → snapshot = bridgeSnapshot) :
    NamesOwn (fun _ => 0) bridgeGenesis s
      (.crossChain 1 bridgeBindings 3 1 (requestFor 2 11)) := by
  intro m rest validator signer _ hread hpasses _
  have hvalue : ∃ m', WeightSignMessage.deserialize (requestFor 2 11) = .ok m' [] ∧
      m'.validator = .text (uint256ToHex (2 : Uint256).toNat) ∧ m'.weight = 11 := ⟨_, rfl, rfl, rfl⟩
  obtain ⟨m', hread', htwo, hweight⟩ := hvalue
  obtain ⟨hvalidator, hsame⟩ := request_read hread' hread htwo hpasses
  obtain ⟨snapshot, hsome, -, hle⟩ := hpasses.snapshot
  rw [hsnapshot snapshot hsome, hvalidator, hsame, hweight] at hle
  exact absurd hle (by decide)

theorem bridge_snapshot {taken : BridgeState × BridgeAction} (hmem : taken ∈ (bridgeRun 3).1)
    (snapshot : Snapshot) (hsome : taken.1.node.snapshot = some snapshot) :
    snapshot = bridgeSnapshot := by
  have hall : (bridgeRun 3).1.map (fun taken => taken.1.node.snapshot) =
      [some bridgeSnapshot, some bridgeSnapshot, some bridgeSnapshot, some bridgeSnapshot, none,
        none, none] := rfl
  have hin := List.mem_map_of_mem (f := fun taken => taken.1.node.snapshot) hmem
  rw [hall, hsome] at hin
  simp only [List.mem_cons, Option.some.injEq, List.not_mem_nil, reduceCtorEq, or_false, or_self]
    at hin
  exact hin

theorem signers_certified_sample :
    (bridgeRun 3).2.signed ≠ [] ∧
      ∀ signed ∈ (bridgeRun 3).2.signed, Certified (fun _ => 0) bridgeGenesis signed := by
  refine ⟨by rw [bridgeRun_signed.2]; exact List.cons_ne_nil _ _, ?_⟩
  have hnames : ∀ taken ∈ (bridgeRun 3).1, NamesOwn (fun _ => 0) bridgeGenesis taken.1 taken.2 := by
    intro taken hmem
    have haction : taken.2 ∈ bridgeActions 3 := Machine.action_of_exec hmem
    simp only [bridgeActions, List.mem_cons, List.not_mem_nil, or_false] at haction
    rcases haction with h | h | h | h | h | h | h
    all_goals rw [h]
    case inr.inr.inr.inr.inr.inl => exact heavyRequest_names (bridge_snapshot hmem)
    case inr.inr.inr.inr.inr.inr => exact ownRequest_names taken.1
    all_goals trivial
  refine @signers_certified _ _ (bridgeRun 3).1 _ (Machine.exec_run ⟨rfl, rfl, rfl⟩
    (fun _ _ _ => trivial) fun n _ taken hmem => ?_)
  exact hnames taken (Machine.mem_exec_of_take hmem)

end Stranger

end Raicoin.Validator
