import Raicoin.Node.BlockRpc
import Raicoin.Properties.Lookups
import Raicoin.Properties.Weights

-- What the requests for blocks answer, against the chain of the account.
namespace Raicoin

open Lib

-- The block of the account at the height.
def BlockAt (s : Store) (account : Account) (height : Nat) (b : Block) : Prop :=
  b ∈ s.blockSet ∧ b.account = account ∧ b.height = height

section Exact

variable (env : Env) (s : Store) (account : Account) (info : AccountInfo)

-- The block of the account is reported, unless a notification of it cannot be given.
inductive ConfirmsBlock (request : NotifyRequest) (height : Nat) (hash : BlockHash) (b : Block) :
    Served ConfirmAnswer → Prop where
  | answer (status : BlockStatus) (amount : Option Amount) (subscribed election : Option Block)
      (hsuccess : status = .success ↔ env.hash b = hash)
      (hfork : status = .fork ↔ env.hash b ≠ hash) :
      ConfirmsBlock request height hash b
        (.response ⟨⟨status, some (info.confirmed height), some b, amount⟩, subscribed, election⟩)
  | refused (code : RpcError) (hnotify : request.notify = true)
      (hcode : request.subscribe = .error code) (hopen : info.confirmed height = false) :
      ConfirmsBlock request height hash b (.refused code)

-- The hash names no other block.
def ConfirmExact : Prop :=
  ∀ request height hash, info.tailHeight ≤ height → height ≤ info.headHeight →
    (∀ c, s.blockGet hash = some c → BlockAt s account height c) →
      ∃ b, BlockAt s account height b ∧
        ConfirmsBlock env info request height hash b (blockConfirm env s account height request hash)

-- What a request with the hash `previous` ends in.
inductive PreviousAnswer (height : Nat) (previous : BlockHash) : Served BlockResponse → Prop where
  | success (p b : Block) (amount : Option Amount) (hp : BlockAt s account (height - 1) p)
      (hb : BlockAt s account height b) (hprevious : env.hash p = previous) :
      PreviousAnswer height previous
        (.response ⟨.success, some (info.confirmed height), some b, amount⟩)
  | miss (hhead : previous = info.head) : PreviousAnswer height previous (.response (.ofStatus .miss))
  | fork (b : Block) (amount : Option Amount) (hunknown : s.blockGet previous = none)
      (hb : BlockAt s account (height - 1) b) :
      PreviousAnswer height previous
        (.response ⟨.fork, some (info.confirmed (height - 1)), some b, amount⟩)
  | refused (p : Block) (hp : s.blockGet previous = some p) (hhead : previous ≠ info.head)
      (hheight : p.height + 1 ≠ height) :
      PreviousAnswer height previous (.refused .RPC_INVALID_FIELD_PREVIOUS)

def HasStatus (status : BlockStatus) (served : Served BlockResponse) : Prop :=
  ∃ response, served = .response response ∧ response.status = status

-- The hash is not that of a block of another account.
structure PreviousExact (height : Nat) (previous : BlockHash) (served : Served BlockResponse) :
    Prop where
  answer : PreviousAnswer env s account info height previous served
  success : HasStatus .success served ↔ ∃ p b, BlockAt s account (height - 1) p ∧
    BlockAt s account height b ∧ env.hash p = previous
  miss : HasStatus .miss served ↔ previous = info.head
  fork : HasStatus .fork served ↔ s.blockGet previous = none

def PreviousQueriesExact (serve : Nat → BlockHash → Served BlockResponse) : Prop :=
  ∀ height previous, info.tailHeight < height → height ≤ info.headHeight + 1 →
    (∀ p, s.blockGet previous = some p → p.account = account) →
      PreviousExact env s account info height previous (serve height previous)

-- The blocks from the height on, as many as are asked for and are there.
def BlocksExact : Prop :=
  ∀ height count, info.tailHeight ≤ height → height ≤ info.headHeight →
    ∃ blocks more, blocksQuery s account height count = .response ⟨.success, some more, blocks⟩ ∧
      blocks.length = min (blocksCount count) (info.headHeight - height + 1) ∧
      (∀ i (hi : i < blocks.length), BlockAt s account (height + i) blocks[i]) ∧
      (more = true ↔ blocksCount count ≤ info.headHeight - height + 1)

end Exact

variable {env : Env} {s : Store} {account : Account} {info : AccountInfo}

namespace WellFormed

variable (h : WellFormed env s) (hinfo : s.accounts.get account = some info)
  (hzero : ∀ b ∈ s.blockSet, env.hash b ≠ 0)

include h

theorem blockGet_hash {b : Block} (hb : b ∈ s.blockSet) : s.blockGet (env.hash b) = some b := by
  obtain ⟨hash, hget⟩ := Store.mem_blockSet.mp hb
  rwa [h.stored hash b hget]

theorem blockGet_some {hash : BlockHash} {b : Block} (hget : s.blockGet hash = some b) :
    b ∈ s.blockSet ∧ env.hash b = hash :=
  ⟨Store.mem_blockSet.mpr ⟨hash, hget⟩, h.stored hash b hget⟩

include hinfo

theorem blockAt_unique {height : Nat} {b c : Block} (hb : BlockAt s account height b)
    (hc : BlockAt s account height c) : b = c := by
  obtain ⟨htail, hhead⟩ := (h.chains account info hinfo).within b hb.1 hb.2.1
  rw [hb.2.2] at htail hhead
  exact ((h.chains account info hinfo).at_height height htail hhead).unique hb hc

theorem exists_blockAt {height : Nat} (htail : info.tailHeight ≤ height)
    (hhead : height ≤ info.headHeight) : ∃ b, BlockAt s account height b :=
  ((h.chains account info hinfo).at_height height htail hhead).exists

theorem headAt : ∃ b, BlockAt s account info.headHeight b ∧ env.hash b = info.head := by
  obtain ⟨b, hb, haccount, hheight, hhash⟩ := (h.chains account info hinfo).head
  exact ⟨b, ⟨hb, haccount, hheight⟩, hhash⟩

include hzero

-- The successor of a block is zero if it is the head, and the block above it otherwise.
theorem successor_of {b : Block} (hb : b ∈ s.blockSet) (haccount : b.account = account) :
    ∃ stored, s.blocks.get (env.hash b) = some stored ∧ stored.block = b ∧
      (stored.successor = 0 ↔ b.height = info.headHeight) ∧
      ∀ c, BlockAt s account (b.height + 1) c → stored.successor = env.hash c := by
  have hchain := h.linkedChain hinfo
  obtain ⟨htail, hhead⟩ := (h.chains account info hinfo).within b hb haccount
  obtain ⟨stored, hget, hblock⟩ := hchain.get_hash hb
  have hsuccessor := hchain.record_successor ⟨hb, haccount⟩ ⟨hget, hblock⟩ htail hhead
  refine ⟨stored, hget, hblock, ?_, ?_⟩
  · unfold SuccessorAt at hsuccessor
    split_ifs at hsuccessor with htop
    · exact iff_of_true hsuccessor htop
    · obtain ⟨c, hc, -, -, hhash⟩ := hsuccessor
      rw [← hhash]
      exact iff_of_false (hzero c hc) htop
  · rintro c ⟨hc, hcaccount, hcheight⟩
    have hnext := (hchain.linked b hb c hc haccount hcaccount hcheight).2
    rw [Store.blockSuccessorGet, hget] at hnext
    exact Option.some_inj.mp hnext

omit hzero in
-- The lookups by height find the blocks of the chain.
theorem found_at {height : Nat} (hrange : WalkInRange info height) {b : Block}
    (hb : BlockAt s account height b) :
    s.blockAt account height = .found b ∧ ∃ stored, s.blocks.get (env.hash b) = some stored ∧
      s.blockAndSuccessorAt account height = .found (b, stored.successor) := by
  have hchain := h.linkedChain hinfo
  obtain ⟨hmem, haccount, rfl⟩ := hb
  obtain ⟨htail, hhead⟩ := (h.chains account info hinfo).within b hmem haccount
  obtain ⟨stored, hrecord, hlookup⟩ := hchain.lookupAt_inside ⟨hmem, haccount⟩ htail hhead hrange
  refine ⟨?_, stored, hrecord.1, ?_⟩
  · rw [Store.blockAt, hlookup, Lookup.map, hrecord.2]
  · rw [Store.blockAndSuccessorAt, hlookup, Lookup.map, hrecord.2]

end WellFormed

-- A response is of the block, or the notification is refused.
theorem confirmAnswer_confirms {request : NotifyRequest} {height : Nat} {hash : BlockHash}
    {b : Block} {status : BlockStatus} {amount : Option Amount}
    (hsuccess : status = .success ↔ env.hash b = hash)
    (hfork : status = .fork ↔ env.hash b ≠ hash) :
    ConfirmsBlock env info request height hash b
      (confirmAnswer request (info.confirmed height) b
        ⟨status, some (info.confirmed height), some b, amount⟩) := by
  unfold confirmAnswer
  by_cases hconfirmed : info.confirmed height = true
  · rw [if_pos hconfirmed]
    exact .answer status amount none none hsuccess hfork
  rw [if_neg hconfirmed]
  by_cases hnotify : request.notify = true
  · rw [if_pos hnotify]
    cases hcode : request.subscribe with
    | error code => exact .refused code hnotify hcode (Bool.eq_false_iff.mpr hconfirmed)
    | ok _ => exact .answer status amount (some b) (some b) hsuccess hfork
  · rw [if_neg hnotify]
    exact .answer status amount none (some b) hsuccess hfork

section Served

-- The account has blocks, at heights that the walks can reach.
variable (h : WellFormed env s) (hzero : ∀ b ∈ s.blockSet, env.hash b ≠ 0)
  (hopen : s.openInfo account = some info)
  (hrange : ∀ height, info.tailHeight ≤ height → height ≤ info.headHeight → WalkInRange info height)

include hopen

theorem Store.get_of_openInfo : s.accounts.get account = some info :=
  (Option.filter_eq_some_iff.mp hopen).1

include h hzero hrange

omit hzero in
theorem blockConfirm_exact : ConfirmExact env s account info := by
  have hinfo := Store.get_of_openInfo hopen
  intro request height hash htail hhead hnamed
  obtain ⟨b, hb⟩ := h.exists_blockAt hinfo htail hhead
  refine ⟨b, hb, ?_⟩
  unfold blockConfirm
  rw [hopen]
  dsimp only
  rw [if_neg (by omega), if_neg (by omega)]
  cases hget : s.blockGet hash with
  | some c =>
      obtain rfl := h.blockAt_unique hinfo (hnamed c hget) hb
      have hhash := (h.blockGet_some hget).2
      exact confirmAnswer_confirms (iff_of_true rfl hhash)
        (iff_of_false (by decide) fun hne => hne hhash)
  | none =>
      have hother : env.hash b ≠ hash := by
        intro hhash
        rw [← hhash, h.blockGet_hash hb.1] at hget
        cases hget
      rw [(h.found_at hinfo (hrange _ htail hhead) hb).1]
      exact confirmAnswer_confirms (iff_of_false (by decide) hother) (iff_of_true rfl hother)

-- The four cases of a request by the previous hash.
theorem queryByPrevious_answer (amount : Block → Option Amount) {height : Nat}
    {previous : BlockHash} (htail : info.tailHeight < height) (hhead : height ≤ info.headHeight + 1)
    (hnamed : ∀ p, s.blockGet previous = some p → p.account = account) :
    PreviousAnswer env s account info height previous
      (queryByPrevious s account height amount previous) := by
  have hinfo := Store.get_of_openInfo hopen
  unfold queryByPrevious
  rw [hopen]
  dsimp only
  rw [if_neg (by omega), if_neg (by omega), if_neg (by omega)]
  cases hget : s.blockGet previous with
  | none =>
      have hunknown : s.blockSuccessorGet previous = none := by
        rw [Store.blockSuccessorGet, Option.map_eq_none_iff]
        exact Option.map_eq_none_iff.mp hget
      have htail' : info.tailHeight ≤ height - 1 := by omega
      have hhead' : height - 1 ≤ info.headHeight := by omega
      obtain ⟨b, hb⟩ := h.exists_blockAt hinfo htail' hhead'
      rw [hunknown, (h.found_at hinfo (hrange _ htail' hhead') hb).1]
      exact .fork b _ hget hb
  | some p =>
      obtain ⟨hp, rfl⟩ := h.blockGet_some hget
      have haccount := hnamed p hget
      obtain ⟨stored, hrow, -, htop, hnext⟩ := h.successor_of hinfo hzero hp haccount
      have hsuccessor : s.blockSuccessorGet (env.hash p) = some stored.successor := by
        rw [Store.blockSuccessorGet, hrow]
        rfl
      obtain ⟨top, htopAt, htophash⟩ := h.headAt hinfo
      rw [hsuccessor]
      dsimp only
      by_cases hlast : p.height = info.headHeight
      · rw [if_pos (htop.mpr hlast)]
        have hsame := h.blockAt_unique hinfo ⟨hp, haccount, hlast⟩ htopAt
        exact .miss (hsame ▸ htophash)
      · rw [if_neg fun hz => hlast (htop.mp hz)]
        have hwithin := (h.chains account info hinfo).within p hp haccount
        obtain ⟨b, hb⟩ := h.exists_blockAt hinfo (show info.tailHeight ≤ p.height + 1 by omega)
          (by omega)
        rw [hnext b hb, h.blockGet_hash hb.1]
        dsimp only
        by_cases hheight : b.height = height
        · rw [if_neg (not_not_intro hheight)]
          have hbelow : p.height = height - 1 := by
            have := hb.2.2
            omega
          exact .success p b _ ⟨hp, haccount, hbelow⟩ ⟨hb.1, hb.2.1, hheight⟩ rfl
        · rw [if_pos hheight]
          refine .refused p hget (fun hhash => hlast ?_) (fun heq => hheight (hb.2.2.trans heq))
          rw [← htophash] at hhash
          rw [← htopAt.2.2]
          have hsame := (h.blockGet_hash htopAt.1).symm.trans (hhash ▸ hget)
          rw [Option.some.inj hsame]

omit hopen h hzero hrange in
theorem hasStatus_response {status : BlockStatus} {response : BlockResponse} :
    HasStatus status (.response response) ↔ response.status = status := by
  constructor
  · rintro ⟨_, hresponse, hstatus⟩
    cases hresponse
    exact hstatus
  · exact fun hstatus => ⟨response, rfl, hstatus⟩

omit hopen h hzero hrange in
theorem not_hasStatus_refused {status : BlockStatus} {code : RpcError} :
    ¬HasStatus status (.refused code) :=
  fun ⟨_, hresponse, _⟩ => (by cases hresponse)

-- The cases exclude each other.
theorem queryByPrevious_exact (amount : Block → Option Amount) :
    PreviousQueriesExact env s account info fun height previous =>
      queryByPrevious s account height amount previous := by
  have hinfo := Store.get_of_openInfo hopen
  intro height previous htail hhead hnamed
  have hanswer := queryByPrevious_answer h hzero hopen hrange amount htail hhead hnamed
  dsimp only
  generalize queryByPrevious s account height amount previous = served at hanswer ⊢
  obtain ⟨top, htopAt, htophash⟩ := h.headAt hinfo
  have hstored {p : Block} {at_ : Nat} (hp : BlockAt s account at_ p) :
      s.blockGet (env.hash p) = some p := h.blockGet_hash hp.1
  have htopGet : s.blockGet info.head = some top := htophash ▸ hstored htopAt
  -- A block below another one is not the head.
  have hbelow {p b : Block} (hp : BlockAt s account (height - 1) p)
      (hb : BlockAt s account height b) : env.hash p ≠ info.head := by
    intro hhash
    have hsame := Option.some.inj ((hhash ▸ hstored hp).symm.trans htopGet)
    have htop : p.height = info.headHeight := hsame ▸ htopAt.2.2
    have hle := ((h.chains account info hinfo).within b hb.1 hb.2.1).2
    have hpheight := hp.2.2
    have hbheight := hb.2.2
    omega
  refine ⟨hanswer, ?_, ?_, ?_⟩
  · cases hanswer with
    | success p b _ hp hb hprevious =>
        exact iff_of_true (hasStatus_response.mpr rfl) ⟨p, b, hp, hb, hprevious⟩
    | miss heq =>
        refine iff_of_false (hasStatus_response.not.mpr (by decide)) ?_
        exact fun ⟨p, b, hp, hb, hprevious⟩ => hbelow hp hb (hprevious.trans heq)
    | fork b _ hunknown _ =>
        refine iff_of_false (hasStatus_response.not.mpr fun heq => (by cases heq)) ?_
        rintro ⟨p, c, hp, hc, rfl⟩
        rw [hstored hp] at hunknown
        cases hunknown
    | refused p hp _ hheight =>
        refine iff_of_false not_hasStatus_refused ?_
        rintro ⟨q, c, hq, hc, rfl⟩
        have hsame := Option.some.inj ((hstored hq).symm.trans hp)
        have hqheight := hq.2.2
        rw [hsame] at hqheight
        omega
  · cases hanswer with
    | success p b _ hp hb hprevious =>
        refine iff_of_false (hasStatus_response.not.mpr fun heq => (by cases heq)) ?_
        exact fun heq => hbelow hp hb (hprevious.trans heq)
    | miss heq => exact iff_of_true (hasStatus_response.mpr rfl) heq
    | fork b _ hunknown _ =>
        refine iff_of_false (hasStatus_response.not.mpr fun heq => (by cases heq)) ?_
        rintro rfl
        rw [htopGet] at hunknown
        cases hunknown
    | refused p hp hother _ => exact iff_of_false not_hasStatus_refused hother
  · cases hanswer with
    | success p b _ hp hb hprevious =>
        refine iff_of_false (hasStatus_response.not.mpr fun heq => (by cases heq)) ?_
        rw [← hprevious, hstored hp]
        exact fun heq => (by cases heq)
    | miss heq =>
        refine iff_of_false (hasStatus_response.not.mpr (by decide)) ?_
        rw [heq, htopGet]
        exact fun heq => (by cases heq)
    | fork b _ hunknown _ => exact iff_of_true (hasStatus_response.mpr rfl) hunknown
    | refused p hp _ _ =>
        refine iff_of_false not_hasStatus_refused ?_
        rw [hp]
        exact fun heq => (by cases heq)

omit hrange in
-- Behind a block come those above it, one after the other.
theorem blocksBehind_spec {b : Block} (hb : b ∈ s.blockSet) (haccount : b.account = account)
    {stored : StoredBlock} (hrow : s.blocks.get (env.hash b) = some stored) (rounds : Nat) :
    ∃ blocks more, blocksBehind s rounds stored.successor = some (blocks, more) ∧
      blocks.length = min rounds (info.headHeight - b.height) ∧
      (∀ i (hi : i < blocks.length), BlockAt s account (b.height + 1 + i) blocks[i]) ∧
      (more = true ↔ rounds ≤ info.headHeight - b.height) := by
  have hinfo := Store.get_of_openInfo hopen
  induction rounds generalizing b stored with
  | zero => exact ⟨[], true, rfl, by simp, fun i hi => absurd hi (Nat.not_lt_zero i), by simp⟩
  | succ rounds ih =>
      obtain ⟨own, hown, -, htop, hnext⟩ := h.successor_of hinfo hzero hb haccount
      obtain rfl := Option.some.inj (hown.symm.trans hrow)
      have hle := ((h.chains account info hinfo).within b hb haccount).2
      unfold blocksBehind
      by_cases hlast : b.height = info.headHeight
      · rw [if_pos (htop.mpr hlast)]
        refine ⟨[], false, rfl, ?_, fun i hi => absurd hi (Nat.not_lt_zero i), ?_⟩
        · rw [List.length_nil]
          omega
        · exact iff_of_false (by decide) (by omega)
      · rw [if_neg fun hz => hlast (htop.mp hz)]
        have htail := ((h.chains account info hinfo).within b hb haccount).1
        obtain ⟨c, hc⟩ := h.exists_blockAt hinfo (show info.tailHeight ≤ b.height + 1 by omega)
          (by omega)
        obtain ⟨above, habove, hblock, -⟩ := h.successor_of hinfo hzero hc.1 hc.2.1
        obtain ⟨blocks, more, hbehind, hlength, hblocks, hmore⟩ := ih hc.1 hc.2.1 habove
        have hheight := hc.2.2
        rw [hnext c hc, habove]
        refine ⟨c :: blocks, more, ?_, ?_, ?_, ?_⟩
        · simp [hbehind, hblock]
        · rw [List.length_cons, hlength]
          omega
        · intro i hi
          cases i with
          | zero => exact hc
          | succ i =>
              have hrest := hblocks i (Nat.lt_of_succ_lt_succ hi)
              rw [show b.height + 1 + (i + 1) = c.height + 1 + i by omega]
              exact hrest
        · rw [hmore]
          omega

theorem blocksQuery_exact : BlocksExact s account info := by
  have hinfo := Store.get_of_openInfo hopen
  intro height count htail hhead
  obtain ⟨b, hb⟩ := h.exists_blockAt hinfo htail hhead
  obtain ⟨-, stored, hrow, hfound⟩ := h.found_at hinfo (hrange _ htail hhead) hb
  obtain ⟨blocks, more, hbehind, hlength, hblocks, hmore⟩ :=
    blocksBehind_spec h hzero hopen hb.1 hb.2.1 hrow (blocksCount count - 1)
  have hheight := hb.2.2
  have hpos : 0 < blocksCount count := by
    unfold blocksCount
    split_ifs with hcount
    · omega
    · omega
  refine ⟨b :: blocks, more, ?_, ?_, ?_, ?_⟩
  · unfold blocksQuery
    rw [hopen]
    dsimp only
    rw [if_neg (by omega), if_neg (by omega), hfound]
    dsimp only [Lookup.serve]
    rw [hbehind]
  · rw [List.length_cons, hlength]
    omega
  · intro i hi
    cases i with
    | zero => exact hb
    | succ i =>
        have hrest := hblocks i (Nat.lt_of_succ_lt_succ hi)
        rw [show height + (i + 1) = b.height + 1 + i by omega]
        exact hrest
  · rw [hmore]
    omega

end Served

-- What the four requests answer about a chain of a ledger.
theorem block_requests_exact (h : WellFormed env s) (hzero : ∀ b ∈ s.blockSet, env.hash b ≠ 0)
    (hopen : s.openInfo account = some info)
    (hrange : ∀ height, info.tailHeight ≤ height → height ≤ info.headHeight →
      WalkInRange info height) :
    ConfirmExact env s account info ∧
      PreviousQueriesExact env s account info
        (fun height previous => NodeRpcHandler.blockQueryByPrevious env s account height previous) ∧
      PreviousQueriesExact env s account info
        (fun height previous => AppRpcHandler.blockQueryByPrevious s account height previous) ∧
      BlocksExact s account info :=
  ⟨blockConfirm_exact h hopen hrange, queryByPrevious_exact h hzero hopen hrange _,
    queryByPrevious_exact h hzero hopen hrange _, blocksQuery_exact h hzero hopen hrange⟩

theorem Tracks.hash_ne_zero {blocks : Set Block} {l : Ledger} {A : Lattice env}
    (h : Tracks blocks l A) (hfree : CollisionFree env blocks) :
    ∀ b ∈ l.store.blockSet, env.hash b ≠ 0 := by
  intro b hb
  rw [h.represents.blockSet] at hb
  exact hfree.ne_zero b (h.subset b hb)

-- Of the eight blocks of the account of the genesis block, there are more behind a page of three
-- from height 2 on, and none behind the last two.
theorem sampleRequests_exact : ∃ info,
    overflowLedger.store.openInfo (genesisPublicKey .test) = some info ∧ info.headHeight = 7 ∧
      ConfirmExact sampleEnv overflowLedger.store (genesisPublicKey .test) info ∧
      PreviousQueriesExact sampleEnv overflowLedger.store (genesisPublicKey .test) info
        (fun height previous => NodeRpcHandler.blockQueryByPrevious sampleEnv overflowLedger.store
          (genesisPublicKey .test) height previous) ∧
      PreviousQueriesExact sampleEnv overflowLedger.store (genesisPublicKey .test) info
        (fun height previous => AppRpcHandler.blockQueryByPrevious overflowLedger.store
          (genesisPublicKey .test) height previous) ∧
      (∃ blocks, blocksQuery overflowLedger.store (genesisPublicKey .test) 2 3 =
          .response ⟨.success, some true, blocks⟩ ∧ blocks.length = 3) ∧
      ∃ blocks, blocksQuery overflowLedger.store (genesisPublicKey .test) 6 3 =
          .response ⟨.success, some false, blocks⟩ ∧ blocks.length = 2 := by
  have hsome : (overflowLedger.store.openInfo (genesisPublicKey .test)).map
      (fun info => (info.tailHeight, info.headHeight)) = some (0, 7) := by
    decide +kernel
  obtain ⟨info, hopen, hheights⟩ := Option.map_eq_some_iff.mp hsome
  have htail : info.tailHeight = 0 := congrArg Prod.fst hheights
  have hhead : info.headHeight = 7 := congrArg Prod.snd hheights
  obtain ⟨A, hA⟩ := overflowLedger_reachable.tracks overflow_collisionFree
  have hrange : ∀ height, info.tailHeight ≤ height → height ≤ info.headHeight →
      WalkInRange info height := by
    intro height _ hle
    rw [hhead] at hle
    have hstride := (Store.strideStart_spec height).1
    exact .inl (by unfold BLOCKS_PER_INDEX; omega)
  obtain ⟨hconfirm, hnode, happ, hblocks⟩ := block_requests_exact hA.represents.wellFormed
    (hA.hash_ne_zero overflow_collisionFree) hopen hrange
  have hthree : blocksCount 3 = 3 := by decide
  refine ⟨info, hopen, hhead, hconfirm, hnode, happ, ?_, ?_⟩
  · obtain ⟨blocks, more, hanswer, hlength, -, hmore⟩ := hblocks 2 3 (by omega) (by omega)
    rw [hthree, hhead] at hlength hmore
    rw [hmore.mpr (by decide)] at hanswer
    exact ⟨blocks, hanswer, hlength⟩
  · obtain ⟨blocks, more, hanswer, hlength, -, hmore⟩ := hblocks 6 3 (by omega) (by omega)
    rw [hthree, hhead] at hlength hmore
    have hlast : more = false := by
      rw [← Bool.not_eq_true, hmore]
      decide
    exact ⟨blocks, hlast ▸ hanswer, hlength⟩

section Astray

def Served.result {β : Type} : Served β → Option β
  | .response value => some value
  | _ => none

def BlockResponse.shown (response : BlockResponse) : BlockStatus × Option Block :=
  (response.status, response.block)

def quietRequest : NotifyRequest := ⟨false, false, false⟩

-- Of the account of the genesis block: a hash of another account's block is confirmed at height 1,
-- what follows its first block is asked for at height 2, and what follows its head at height 1.
-- Of account 1, what follows a block of the other account is asked for. Of a chain that ends at the
-- largest heights, the lookup by height breaks off.
theorem block_requests_astray :
    (blockConfirm sampleEnv sampleLedger.store (genesisPublicKey .test) 1 quietRequest
        (sampleEnv.hash sampleReceive)).result.map (fun answer => answer.response.shown) =
        some (.success, some sampleReceive) ∧
      NodeRpcHandler.blockQueryByPrevious sampleEnv sampleLedger.store (genesisPublicKey .test) 2
        (sampleEnv.hash (genesisBlock .test)) = .refused .RPC_INVALID_FIELD_PREVIOUS ∧
      NodeRpcHandler.blockQueryByPrevious sampleEnv sampleLedger.store (genesisPublicKey .test) 1
        (sampleEnv.hash sampleSend) = .response (.ofStatus .miss) ∧
      (AppRpcHandler.blockQueryByPrevious sampleLedger.store 1 1
        (sampleEnv.hash (genesisBlock .test))).result.map BlockResponse.shown =
        some (.success, some sampleSend) ∧
      LinkedChain chainEnv lateStore 1 lateInfo ∧
      blockConfirm chainEnv lateStore 1 (lateHeight + 2) quietRequest 1 = .aborted := by
  refine ⟨by decide +kernel, by decide +kernel, by decide +kernel, by decide +kernel, lateChain, ?_⟩
  have hopen : lateStore.openInfo 1 = some lateInfo := by decide
  have hunknown : lateStore.blockGet 1 = none := by decide
  have htail : lateInfo.tailHeight ≤ lateHeight + 2 := Nat.le_add_right _ _
  have hhead : lateHeight + 2 ≤ lateInfo.headHeight := Nat.le_refl _
  unfold blockConfirm
  rw [hopen]
  dsimp only
  rw [if_neg (Nat.not_lt.mpr htail), if_neg (Nat.not_lt.mpr hhead), hunknown]
  dsimp only
  rw [Store.blockAt, lateChain.lookupAt_wraps htail hhead (by decide)]
  rfl

end Astray

end Raicoin
