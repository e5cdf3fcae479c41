import Raicoin.Node.Bootstrap.Exchange

-- What a client makes of a batch that the server can send.
namespace Raicoin

open Lib

theorem Block.serialize_length (b : Block) : 0 < b.serialize.length ∧ b.serialize.length ≤ 512 := by
  cases b with
  | tx b =>
      have hle := b.extensions_le
      unfold MAX_EXTENSIONS_SIZE at hle
      simp only [Block.serialize, TxBlock.serialize, List.length_flatten, List.map_cons,
        streamWrite_length, List.map_nil, List.sum_cons, List.sum_nil, Wire.size]
      omega
  | rep b =>
      have hchain : (if RepBlock.hasChain b.opcode = true then streamWrite b.chain
          else []).length ≤ 4 := by
        split
        · exact (streamWrite_length b.chain).le
        · exact Nat.zero_le _
      simp only [Block.serialize, RepBlock.serialize, List.length_flatten, List.map_cons,
        streamWrite_length, List.map_nil, List.sum_cons, List.sum_nil, Wire.size]
      omega
  | ad b =>
      simp only [Block.serialize, AdBlock.serialize, List.length_flatten, List.map_cons,
        streamWrite_length, List.map_nil, List.sum_cons, List.sum_nil, Wire.size]
      omega

theorem asyncRead_append (front stream : List UInt8) :
    asyncRead front.length (front ++ stream) = (some front, stream) := by
  rw [asyncRead, if_pos (by rw [List.length_append]; omega), List.take_left, List.drop_left]

-- The client has read `batch`, and goes on from `last`.
structure BatchRead {β : Type} (type : BootstrapType) (cursor : Account → UInt64 → Nat)
    (batchOf : BootstrapClient → List β) (batch : List β) (last : Nat) (c : BootstrapClient) :
    Prop where
  errorCode : c.errorCode = none
  clientType : c.type = type
  finished : c.finished = decide (batch = [])
  batch_eq : batchOf c = batch
  cursor_eq : cursor c.next c.nextHeight = last

abbrev accountCursor (next : Account) (_ : UInt64) : Nat := accountPlace next

abbrev forkCursor (next : Account) (height : UInt64) : Nat := forkPlace (next, height)

section Accounts

variable {env : Env} {c : BootstrapClient} {a : BootstrapAccount}

theorem BootstrapAccount.serialize_length (a : BootstrapAccount) : a.serialize.length = size := by
  simp [serialize, size, Wire.size]

-- The places of the entries of a batch.
abbrev BootstrapAccount.place (a : BootstrapAccount) : Nat := accountPlace a.account

-- The client has `rest` to read before the end of `batch`.
structure AwaitsAccounts (batch : List BootstrapAccount) (last : Nat) (c : BootstrapClient)
    (rest : List BootstrapAccount) : Prop where
  going : c.errorCode = none ∧ c.finished = false ∧ c.continue_ = true
  type : c.type = .full
  read : (List.range c.currSize).map c.accounts ++ rest = batch
  room : batch.length ≤ MAX_ACCOUNTS
  ascends : Ascends BootstrapAccount.place (accountPlace c.next) rest
  below : ∀ a ∈ rest, a.account.toNat + 1 < 2 ^ 256 ∧ a.height ≠ invalidHeight
  cursor : cursorAfter BootstrapAccount.place (accountPlace c.next) rest = last

theorem account_next {account : Account} (h : account.toNat + 1 < 2 ^ 256) :
    accountPlace (account + 1) = accountPlace account + 1 := by
  have hone : (1 : Account).toNat = 1 := by decide
  rw [accountPlace, accountPlace, BitVec.toNat_add, hone, Nat.mod_eq_of_lt h]

theorem range_succ_map {α : Type} {f g : Nat → α} {size : Nat} {value : α}
    (hvalue : f size = value) (hsame : ∀ i < size, f i = g i) :
    (List.range (size + 1)).map f = (List.range size).map g ++ [value] := by
  rw [List.range_succ, List.map_append, List.map_singleton, hvalue]
  congr 1
  exact List.map_congr_left fun i hi => hsame i (List.mem_range.mp hi)

variable {batch : List BootstrapAccount} {last : Nat} {rest : List BootstrapAccount}

private theorem readAccount_serialize (c : BootstrapClient) (a : BootstrapAccount) :
    c.readAccount (some a.serialize) =
      let c := { c with errorCode := none }
      if a.height = invalidHeight then
        .ok { c with
          finished := if c.currSize = 0 then true else c.finished
          continue_ := false
          accountsSize := c.currSize }
      else if a.account < c.next then .ok (c.fail .BOOTSTRAP_ACCOUNT)
      else if c.currSize ≥ (BootstrapClient.maxSize_ c.type).toNat then .ok (c.fail .BOOTSTRAP_SIZE)
      else do
        let accounts ← storeAt MAX_ACCOUNTS c.accounts c.currSize a
        return { c with accounts, currSize := c.currSize + 1, next := a.account + 1 } := by
  have hread := BootstrapSession.deserialize_account_inverts.complete a [] trivial
  rw [List.append_nil] at hread
  rw [BootstrapClient.readAccount]
  dsimp only
  rw [if_neg (fun hne => hne a.serialize_length), hread]

private theorem round_accounts (htype : c.type = .full) (stream : List UInt8) :
    (⟨c, a.serialize ++ stream⟩ : BootstrapSession).round env = (do
      let client ← c.readAccount (some a.serialize)
      return ⟨client, stream⟩) := by
  unfold BootstrapSession.round
  rw [htype]
  dsimp only
  rw [← a.serialize_length, asyncRead_append]

theorem AwaitsAccounts.next (h : AwaitsAccounts batch last c (a :: rest)) (stream : List UInt8) :
    (⟨c, a.serialize ++ stream⟩ : BootstrapSession).returns = false ∧
      ∃ c', (⟨c, a.serialize ++ stream⟩ : BootstrapSession).round env = .ok ⟨c', stream⟩ ∧
        AwaitsAccounts batch last c' rest := by
  obtain ⟨herror, hfinished, hcontinue⟩ := h.going
  obtain ⟨hlt, hheight⟩ := h.below a List.mem_cons_self
  obtain ⟨hcursor, hascends⟩ := h.ascends
  have hsize : c.currSize < MAX_ACCOUNTS := by
    have hlength := congrArg List.length h.read
    have hroom := h.room
    simp only [List.length_append, List.length_map, List.length_range, List.length_cons] at hlength
    omega
  have hmax : ¬c.currSize ≥ (BootstrapClient.maxSize_ c.type).toNat := by
    rw [BootstrapClient.maxSize_accounts (by rw [h.type]; decide)]
    omega
  have hnext : ¬a.account < c.next := by
    rw [BitVec.lt_def]
    exact Nat.not_lt.mpr hcursor
  refine ⟨by simp [BootstrapSession.returns, herror, hfinished, hcontinue],
    { c with
      errorCode := none
      accounts := Function.update c.accounts c.currSize a
      currSize := c.currSize + 1
      next := a.account + 1 }, ?_, ⟨rfl, hfinished, hcontinue⟩, h.type, ?_, h.room, ?_, ?_, ?_⟩
  · rw [round_accounts h.type, readAccount_serialize]
    dsimp only
    rw [if_neg hheight, if_neg hnext, if_neg hmax, storeAt_bind hsize]
    rfl
  · dsimp only
    rw [range_succ_map (Function.update_self c.currSize a c.accounts)
      fun i hi => Function.update_of_ne (Nat.ne_of_lt hi) a c.accounts, List.append_assoc]
    exact h.read
  · dsimp only
    rw [account_next hlt]
    exact hascends
  · exact fun b hb => h.below b (List.mem_cons_of_mem _ hb)
  · dsimp only
    rw [account_next hlt, ← h.cursor, cursorAfter_cons]

theorem AwaitsAccounts.ends (h : AwaitsAccounts batch last c []) (stream : List UInt8) :
    (⟨c, BootstrapServer.endOfAccounts.serialize ++ stream⟩ : BootstrapSession).returns = false ∧
      ∃ c', (⟨c, BootstrapServer.endOfAccounts.serialize ++ stream⟩ : BootstrapSession).round env =
          .ok ⟨c', stream⟩ ∧
        (⟨c', stream⟩ : BootstrapSession).returns = true ∧
        BatchRead .full accountCursor BootstrapClient.accountBatch batch last
          (⟨c', stream⟩ : BootstrapSession).end_.client := by
  obtain ⟨herror, hfinished, hcontinue⟩ := h.going
  have hread := h.read
  rw [List.append_nil] at hread
  have hempty : c.currSize = 0 ↔ batch = [] := by
    rw [← hread, List.map_eq_nil_iff, List.range_eq_nil]
  refine ⟨by simp [BootstrapSession.returns, herror, hfinished, hcontinue],
    { c with
      errorCode := none
      finished := if c.currSize = 0 then true else c.finished
      continue_ := false
      accountsSize := c.currSize }, ?_, ?_, ?_⟩
  · rw [round_accounts h.type, readAccount_serialize]
    dsimp only
    rw [if_pos (by rfl)]
    rfl
  · simp [BootstrapSession.returns]
  · refine ⟨rfl, h.type, ?_, ?_, h.cursor⟩
    · change (if c.currSize = 0 then true else c.finished) = _
      rw [hfinished]
      by_cases hzero : c.currSize = 0
      · rw [if_pos hzero, decide_eq_true (hempty.mp hzero)]
      · rw [if_neg hzero, decide_eq_false fun hnil => hzero (hempty.mpr hnil)]
    · change (List.range (BootstrapClient.size _)).map c.accounts = batch
      simp only [BootstrapClient.size, h.type]
      exact hread

end Accounts

section Forks

variable {env : Env} {c : BootstrapClient} {first second : Block}

def Block.place (b : Block) : Nat := forkPlace (b.account, UInt64.ofNat b.height)

-- Two blocks as a peer can check them.
structure Block.Forking (env : Env) (first second : Block) : Prop where
  left : first.Verified env
  right : second.Verified env
  forks : first.forkWith second = true
  below : first.height < INVALID_HEIGHT

def forkLength (first second : Block) : UInt16 :=
  UInt16.ofNat (first.serialize.length + second.serialize.length)

theorem forkLength_toNat (first second : Block) : (forkLength first second).toNat =
    (first.serialize ++ second.serialize).length := by
  have hfirst := first.serialize_length
  have hsecond := second.serialize_length
  rw [List.length_append, forkLength]
  exact UInt16.toNat_ofNat_of_lt' (by simp [UInt16.size]; omega)

-- What the server sends for a fork.
def writeFork (fork : Block × Block) : List UInt8 :=
  BootstrapFork.serialize ⟨forkLength fork.1 fork.2, some fork.1, some fork.2⟩

theorem forkLength_pos (first second : Block) : 0 < (forkLength first second).toNat := by
  have hfirst := first.serialize_length
  rw [forkLength_toNat, List.length_append]
  omega

theorem writeFork_eq (first second : Block) : writeFork (first, second) =
    streamWrite (forkLength first second) ++ (first.serialize ++ second.serialize) := by
  simp only [writeFork, BootstrapFork.serialize]
  rw [if_pos (forkLength_pos first second)]

theorem forkPlace_eq (account : Account) (height : UInt64) :
    forkPlace (account, height) = account.toNat * 2 ^ 64 + height.toNat := rfl

theorem Block.place_eq (b : Block) : b.place = b.account.toNat * 2 ^ 64 + b.height := by
  rw [place, forkPlace, UInt64.toNat_ofNat_of_lt' b.height_lt]

-- The client has `rest` to read before the end of `batch`.
structure AwaitsForks (env : Env) (batch : List (Block × Block)) (last : Nat)
    (c : BootstrapClient) (rest : List (Block × Block)) : Prop where
  going : c.errorCode = none ∧ c.finished = false ∧ c.continue_ = true
  type : c.type = .fork
  read : (List.range c.currSize).map (fun i => ((c.forks i).first, (c.forks i).second)) ++
    rest.map (fun fork => (some fork.1, some fork.2)) =
      batch.map fun fork => (some fork.1, some fork.2)
  room : batch.length ≤ MAX_FORKS
  ascends : Ascends (fun fork => fork.1.place) (forkPlace (c.next, c.nextHeight)) rest
  forking : ∀ fork ∈ rest, fork.1.Forking env fork.2
  latest : 0 < c.currSize → ∃ block, (c.forks (c.currSize - 1)).first = some block ∧
    block.height < c.nextHeight.toNat
  cursor : cursorAfter (fun fork => fork.1.place) (forkPlace (c.next, c.nextHeight)) rest = last

variable {batch : List (Block × Block)} {last : Nat} {rest : List (Block × Block)}

private theorem readForkLength_write (c : BootstrapClient) (length : UInt16) :
    c.readForkLength (some (streamWrite length)) =
      if length.toNat > BUFFER_SIZE_ then .ok (c.fail .BOOTSTRAP_FORK_LENGTH)
      else if length = 0 then
        .ok { c with
          finished := if c.currSize = 0 then true else c.finished
          continue_ := false
          forksSize := c.currSize }
      else if c.currSize ≥ (BootstrapClient.maxSize_ c.type).toNat then .ok (c.fail .BOOTSTRAP_SIZE)
      else do
        let fork ← loadAt MAX_FORKS c.forks c.currSize
        let forks ← storeAt MAX_FORKS c.forks c.currSize { fork with length }
        return { c with forks } := by
  have hread := streamRead_inverts.complete length [] trivial
  rw [List.append_nil] at hread
  unfold BootstrapClient.readForkLength
  dsimp only
  rw [if_neg (fun hne => hne (streamWrite_length length)), hread]

-- The blocks of a fork that passes the checks are taken over.
private theorem readForkBlocks_write (hfork : first.Forking env second)
    (hlength : (c.forks c.currSize).length = forkLength first second) (hsize : c.currSize < MAX_FORKS)
    (hnext : ¬first.account < c.next) (hlast : c.LastBelow first) :
    c.readForkBlocks env (some (first.serialize ++ second.serialize)) =
      .ok ({ c with errorCode := none }.withFork first second) := by
  have hread := (deserializeBlock_inverts env).complete second [] hfork.right
  rw [List.append_nil] at hread
  have hpos := forkLength_pos first second
  have hlt : c.currSize - 1 < MAX_FORKS := by omega
  have haccept := BootstrapClient.acceptFork_of_lt (c := { c with errorCode := none }) hsize
    first second
  unfold BootstrapClient.readForkBlocks
  dsimp only
  rw [loadAt_bind hsize, hlength, forkLength_toNat, if_neg (by rw [forkLength_toNat] at hpos; omega),
    (deserializeBlock_inverts env).complete first _ hfork.left]
  dsimp only
  rw [hread]
  dsimp only
  rw [if_neg (by rw [hfork.forks]; exact fun h => h.elim (by decide) hnext)]
  by_cases hsame : 0 < c.currSize ∧ first.account = c.next
  · have hbelow := hlast hsame.1 hsame.2
    rw [if_pos hsame, BootstrapClient.lastHeight, loadAt_bind hlt]
    exact (if_neg (Nat.not_le.mpr hbelow)).trans haccept
  · rw [if_neg hsame]
    exact haccept

private theorem round_fork (htype : c.type = .fork)
    (hgoing : c.errorCode = none ∧ c.finished = false ∧ c.continue_ = true)
    (hsize : c.currSize < MAX_FORKS) (first second : Block) (stream : List UInt8) :
    (⟨c, writeFork (first, second) ++ stream⟩ : BootstrapSession).round env = (do
      let client ← (c.withLength (forkLength first second)).readForkBlocks env
        (some (first.serialize ++ second.serialize))
      return ⟨client, stream⟩) := by
  have hpos := forkLength_pos first second
  have hlength := forkLength_toNat first second
  have hfirst := first.serialize_length
  have hsecond := second.serialize_length
  rw [List.length_append] at hlength
  have hne : forkLength first second ≠ 0 := by
    intro hzero
    rw [hzero] at hpos
    exact absurd hpos (by decide)
  have hmax : ¬c.currSize ≥ (BootstrapClient.maxSize_ c.type).toNat := by
    rw [htype, BootstrapClient.maxSize_forks]
    omega
  have hread : c.readForkLength (some (streamWrite (forkLength first second))) =
      .ok (c.withLength (forkLength first second)) := by
    rw [readForkLength_write, if_neg (by unfold BUFFER_SIZE_; omega), if_neg hne, if_neg hmax,
      loadAt_bind hsize, storeAt_bind hsize]
    rfl
  unfold BootstrapSession.round
  rw [htype]
  dsimp only
  rw [writeFork_eq, List.append_assoc, ← streamWrite_length (forkLength first second),
    asyncRead_append]
  dsimp only
  rw [hread, Access.ok_bind, if_neg, loadAt_bind (show (c.withLength _).currSize < _ from hsize),
    BootstrapClient.withLength_length, if_neg hne, forkLength_toNat, asyncRead_append]
  · obtain ⟨herror, hfinished, hcontinue⟩ := hgoing
    simp [BootstrapClient.withLength, herror, hfinished, hcontinue]

-- The client after a fork that it has read and accepted.
private def afterFork (c : BootstrapClient) (first second : Block) : BootstrapClient :=
  { c.withLength (forkLength first second) with errorCode := none }.withFork first second

private theorem afterFork_self (c : BootstrapClient) (first second : Block) :
    (((afterFork c first second).forks c.currSize).first,
      ((afterFork c first second).forks c.currSize).second) = (some first, some second) := by
  have hself : (afterFork c first second).forks c.currSize = _ :=
    Function.update_self c.currSize _ _
  rw [hself]

private theorem afterFork_of_lt (c : BootstrapClient) (first second : Block) {i : Nat}
    (h : i < c.currSize) : (afterFork c first second).forks i = c.forks i :=
  (Function.update_of_ne (Nat.ne_of_lt h) _ _).trans (Function.update_of_ne (Nat.ne_of_lt h) _ _)

private theorem afterFork_next (c : BootstrapClient) {first : Block} (second : Block)
    (h : first.height < 2 ^ 64 - 1) : (afterFork c first second).next = first.account ∧
      (afterFork c first second).nextHeight = UInt64.ofNat (first.height + 1) :=
  ⟨if_pos h, if_pos h⟩

theorem AwaitsForks.next (h : AwaitsForks env batch last c ((first, second) :: rest))
    (stream : List UInt8) :
    (⟨c, writeFork (first, second) ++ stream⟩ : BootstrapSession).returns = false ∧
      ∃ c', (⟨c, writeFork (first, second) ++ stream⟩ : BootstrapSession).round env =
        .ok ⟨c', stream⟩ ∧ AwaitsForks env batch last c' rest := by
  obtain ⟨herror, hfinished, hcontinue⟩ := h.going
  have hfork := h.forking _ List.mem_cons_self
  obtain ⟨hcursor, hascends⟩ := h.ascends
  have hbelow : first.height < INVALID_HEIGHT := hfork.below
  unfold INVALID_HEIGHT at hbelow
  have hsize : c.currSize < MAX_FORKS := by
    have hlength := congrArg List.length h.read
    have hroom := h.room
    simp only [List.length_append, List.length_map, List.length_range, List.length_cons] at hlength
    omega
  have hnextHeight := c.nextHeight.toNat_lt
  dsimp only at hcursor
  rw [first.place_eq, forkPlace_eq] at hcursor
  have hnext : ¬first.account < c.next := by
    rw [BitVec.lt_def]
    omega
  have hlast : (c.withLength (forkLength first second)).LastBelow first := by
    intro hpos haccount
    obtain ⟨block, hblock, hheight⟩ := h.latest hpos
    have hsame := (c.withLength_untouched (forkLength first second)).first (c.currSize - 1)
    change (((c.withLength (forkLength first second)).forks (c.currSize - 1)).first.map
      Block.height).getD 0 < first.height
    rw [hsame, hblock, Option.map_some, Option.getD_some]
    change first.account = c.next at haccount
    rw [haccount] at hcursor
    omega
  refine ⟨by simp [BootstrapSession.returns, herror, hfinished, hcontinue],
    afterFork c first second, ?_, ?_⟩
  · rw [round_fork h.type h.going hsize, readForkBlocks_write hfork
      (c.withLength_length (forkLength first second)) hsize hnext hlast]
    rfl
  · have hplace : forkPlace (first.account, UInt64.ofNat (first.height + 1)) = first.place + 1 := by
      rw [first.place_eq, forkPlace_eq,
        UInt64.toNat_ofNat_of_lt' (show first.height + 1 < 2 ^ 64 by omega)]
      omega
    have hnext' := afterFork_next c second (show first.height < 2 ^ 64 - 1 by omega)
    constructor
    · exact ⟨rfl, hfinished, hcontinue⟩
    · exact h.type
    · change (List.range (c.currSize + 1)).map _ ++ _ = _
      rw [range_succ_map (afterFork_self c first second)
        fun i hi => by rw [afterFork_of_lt c first second hi], List.append_assoc]
      exact h.read
    · exact h.room
    · rw [hnext'.1, hnext'.2, hplace]
      exact hascends
    · exact fun fork hmem => h.forking fork (List.mem_cons_of_mem _ hmem)
    · intro _
      refine ⟨first, congrArg Prod.fst (afterFork_self c first second), ?_⟩
      rw [hnext'.2, UInt64.toNat_ofNat_of_lt' (show first.height + 1 < 2 ^ 64 by omega)]
      omega
    · rw [hnext'.1, hnext'.2, hplace, ← h.cursor, cursorAfter_cons]

theorem AwaitsForks.ends (h : AwaitsForks env batch last c []) (stream : List UInt8) :
    (⟨c, BootstrapServer.endOfForks.serialize ++ stream⟩ : BootstrapSession).returns = false ∧
      ∃ c', (⟨c, BootstrapServer.endOfForks.serialize ++ stream⟩ : BootstrapSession).round env =
          .ok ⟨c', stream⟩ ∧
        (⟨c', stream⟩ : BootstrapSession).returns = true ∧
        BatchRead .fork forkCursor BootstrapClient.forkBatch
          (batch.map fun fork => (some fork.1, some fork.2)) last (⟨c', stream⟩ : BootstrapSession).end_.client := by
  obtain ⟨herror, hfinished, hcontinue⟩ := h.going
  have hread := h.read
  rw [List.map_nil, List.append_nil] at hread
  have hempty : c.currSize = 0 ↔ batch.map (fun fork => (some fork.1, some fork.2)) = [] := by
    rw [← hread, List.map_eq_nil_iff, List.range_eq_nil]
  have hmark : BootstrapServer.endOfForks.serialize = streamWrite (0 : UInt16) :=
    List.append_nil _
  refine ⟨by simp [BootstrapSession.returns, herror, hfinished, hcontinue],
    { c with
      finished := if c.currSize = 0 then true else c.finished
      continue_ := false
      forksSize := c.currSize }, ?_, ?_, ?_⟩
  · unfold BootstrapSession.round
    rw [h.type]
    dsimp only
    rw [hmark, ← streamWrite_length (0 : UInt16), asyncRead_append]
    dsimp only
    rw [readForkLength_write, if_neg (by decide), if_pos rfl, Access.ok_bind, if_pos (by simp),
      h.type]
    rfl
  · simp [BootstrapSession.returns]
  · have hend : (⟨{ c with
        finished := if c.currSize = 0 then true else c.finished
        continue_ := false
        forksSize := c.currSize }, stream⟩ : BootstrapSession).end_.client = { c with
          finished := if c.currSize = 0 then true else c.finished
          continue_ := false
          forksSize := c.currSize
          total := c.total + c.currSize } := by
      rw [BootstrapSession.end_, if_neg (by simp [herror])]
    rw [hend]
    refine ⟨herror, h.type, ?_, ?_, h.cursor⟩
    · change (if c.currSize = 0 then true else c.finished) = _
      rw [hfinished]
      by_cases hzero : c.currSize = 0
      · rw [if_pos hzero, decide_eq_true (hempty.mp hzero)]
      · rw [if_neg hzero, decide_eq_false fun hnil => hzero (hempty.mpr hnil)]
    · rw [BootstrapClient.forkBatch, BootstrapClient.size]
      simp only [h.type]
      exact hread

end Forks

end Raicoin
