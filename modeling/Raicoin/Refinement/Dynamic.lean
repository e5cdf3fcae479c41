import Raicoin.Refinement.Processor

-- What the rounds of a dynamic operation do to the fork counts.
namespace Raicoin

open Lib

section Effects

variable {env : Env} {blocks : Set Block} {A : Lattice env} {l l' : Ledger} {forks : ForkTable}
  {account : Account} {call : BlockCall}

theorem Counted.of_store (h : Counted l forks account) (hstore : l'.store = l.store) :
    Counted l' forks account :=
  h.congr (by rw [hstore]) fun _ => rfl

-- A committed call keeps the count of every account, unless it rolls back its head.
theorem Effect.counted (heffect : Effect env l call l') (hcf : CollisionFree env blocks)
    (hmem : call.block ∈ blocks) (h : Tracks blocks l A)
    (hother : (∃ b, call = .rollback b) → account ≠ call.block.account)
    (hcounted : Counted l forks account) : Counted l' forks account := by
  cases heffect with
  | @append now b on hchecks =>
      by_cases he : account = b.account
      · subst he
        unfold Counted at hcounted ⊢
        rw [Ledger.appended_store]
        simp only [Store.accountInfoGet, appendedStore, Table.get_put, if_true] at hcounted ⊢
        have hplaced := hchecks.placed
        cases on with
        | none =>
            have hnone : l.store.accounts.get b.account = none := by
              rw [← h.represents.accountInfo_eq]
              exact hplaced.1
            rw [hnone] at hcounted
            refine ⟨hcounted.symm, fun height entry hget => ?_⟩
            simp [ForkTable.count_eq_zero.mp hcounted height] at hget
        | some place =>
            obtain ⟨info, p⟩ := place
            have hheight := hplaced.1.height
            rw [hplaced.1.info_get] at hcounted
            refine ⟨hcounted.1, fun height entry hget => ?_⟩
            have hle := hcounted.2 height entry hget
            simp only [appendedInfo]
            omega
      · refine hcounted.congr ?_ fun _ => rfl
        rw [Ledger.appended_store]
        simp [Store.accountInfoGet, appendedStore, he]
  | @rollback b info previous hchecks =>
      have hne : account ≠ b.account := hother ⟨b, rfl⟩
      refine hcounted.congr ?_ fun _ => rfl
      simp only [Ledger.removed, removedStore, Store.accountInfoGet]
      split <;> simp [hne]
  | prepend hchecks =>
      exact absurd hchecks (checkPrepend_ne_ok h.represents (hcf.height_ne _ hmem))
  | @confirm b info hchecks =>
      by_cases he : account = b.account
      · subst he
        simp only [checkConfirm, Except.bind_eq_ok, orReturn_eq_ok] at hchecks
        obtain ⟨-, -, hinfo⟩ := hchecks
        unfold Counted at hcounted ⊢
        rw [hinfo] at hcounted
        simpa [confirmedStore, Store.accountInfoGet] using hcounted
      · refine hcounted.congr ?_ fun _ => rfl
        simp [confirmedStore, Store.accountInfoGet, he]
  | confirmed => exact hcounted

end Effects

section Rounds

variable {env : Env} {l : Ledger} {stack : List BlockDynamic} {b : Block} {now : Nat}
  {fails : StoreCall → Bool}

-- The call of a round commits its effect, or leaves the store alone.
def Touches (env : Env) (l : Ledger) (operation : BlockOperation) (b : Block) (l' : Ledger) :
    Prop :=
  l'.store = l.store ∨ ∃ call : BlockCall, call.block = b ∧
    ((∃ c, call = .rollback c) → operation = .rollback) ∧ Effect env l call l'

-- What a round puts on the stack: nothing, a place for an answer, or a block at hand.
def Stacks (l : Ledger) (b : Block) (stack : List BlockDynamic) (result : Dynamic) : Prop :=
  result.stack = stack ∨ (∃ operation, result.stack = ⟨operation, none⟩ :: stack) ∨
    result.code = .error .BLOCK_PROCESS_CONTINUE ∧ ∃ operation pushed,
      result.stack = ⟨operation, some pushed⟩ :: stack ∧
        (pushed = b ∨ ∃ hash, l.store.blockGet hash = some pushed)

theorem Dynamic.push_stacks {t : Transaction} {found : Option Block} {code : ErrorCode}
    (hfound : ∀ pushed, found = some pushed → ∃ hash, l.store.blockGet hash = some pushed) :
    Stacks l b stack (.push t stack found code) := by
  cases found with
  | none => exact .inl rfl
  | some pushed => exact .inr (.inr ⟨rfl, .rollback, pushed, rfl, .inr (hfound pushed rfl)⟩)

theorem Store.walk_get {s : Store} {next : StoredBlock → BlockHash} {account : Account}
    {height rounds : Nat} {hash : BlockHash} {stored : StoredBlock}
    (h : s.walk account next height rounds hash = .found stored) :
    ∃ hash, s.blockGet hash = some stored.block := by
  induction rounds generalizing hash with
  | zero => cases h
  | succ rounds ih =>
      rw [walk] at h
      split at h
      · cases h
      · rename_i found hget
        split at h
        · cases h
          exact ⟨hash, by rw [blockGet, hget]; rfl⟩
        · exact ih h

theorem Store.walkFrom_get {s : Store} {next : StoredBlock → BlockHash} {account : Account}
    {height rounds start own : Nat} {ownHash : BlockHash} {stored : StoredBlock}
    (h : s.walkFrom account next height rounds start own ownHash = .found stored) :
    ∃ hash, s.blockGet hash = some stored.block := by
  unfold walkFrom at h
  split at h
  · split at h
    · cases h
    · exact walk_get h
  · exact walk_get h

theorem Store.blockGetAt_get {s : Store} {account : Account} {height : Nat}
    (h : s.blockGetAt account height = some b) : ∃ hash, s.blockGet hash = some b := by
  have hlookup : ∃ stored, s.lookupAt account height = .found stored ∧ stored.block = b := by
    unfold blockGetAt blockAt at h
    cases hfound : s.lookupAt account height with
    | found stored => rw [hfound] at h; exact ⟨stored, rfl, Option.some.inj h⟩
    | error => rw [hfound] at h; cases h
    | aborted => rw [hfound] at h; cases h
  obtain ⟨stored, hfound, rfl⟩ := hlookup
  unfold lookupAt at hfound
  split at hfound
  · cases hfound
  · split at hfound
    · cases hfound
    · split at hfound
      · exact walkFrom_get hfound
      · exact walkFrom_get hfound

theorem headOf_get {s : Store} {account : Account} (h : headOf s account = some b) :
    ∃ hash, s.blockGet hash = some b := by
  simp only [headOf, Option.bind_eq_bind, Option.bind_eq_some_iff] at h
  obtain ⟨info, -, hget⟩ := h
  exact ⟨_, hget⟩

section Kept

variable {operation : BlockOperation} {t : Transaction} {code : ErrorCode}

-- An error after which the round commits has changed nothing.
theorem touches_kept (h : t = .begin_ l fails) : Touches env l operation b t.commit :=
  .inl (by rw [h]; rfl)

theorem touches_abort : Touches env l operation b (t.abort l) := .inl rfl

theorem wait_round (h : t = .begin_ l fails) {missing : Prop} [Decidable missing]
    {asked : BlockOperation} {result : Dynamic}
    (hresult : result = if missing then ⟨t.commit, stack, .error code⟩ else .wait t stack asked) :
    Touches env l operation b result.ledger ∧ Stacks l b stack result := by
  rw [hresult]
  split
  · exact ⟨touches_kept h, .inl rfl⟩
  · exact ⟨touches_kept h, .inr (.inl ⟨asked, rfl⟩)⟩

theorem push_round (h : t = .begin_ l fails) {found : Option Block}
    (hfound : ∀ pushed, found = some pushed → ∃ hash, t.store.blockGet hash = some pushed) :
    Touches env l operation b (Dynamic.push t stack found code).ledger ∧
      Stacks l b stack (.push t stack found code) := by
  subst h
  refine ⟨?_, Dynamic.push_stacks hfound⟩
  cases found with
  | none => exact touches_kept rfl
  | some pushed => exact touches_kept rfl

end Kept

theorem append_round : Touches env l .append b
      (processBlockDynamicAppend_ env now fails l stack b).ledger ∧
    Stacks l b stack (processBlockDynamicAppend_ env now fails l stack b) := by
  unfold processBlockDynamicAppend_
  cases hrun : appendBlock_ env now b (.begin_ l fails) with
  | ok u t =>
      exact ⟨.inr ⟨.append now b, rfl, by simp, @BlockCall.effect env l (.append now b) _ t u hrun⟩,
        .inl rfl⟩
  | error code t =>
      have hkeep := @BlockCall.keep_unchanged env (.append now b) _ t code hrun
      dsimp only
      split
      · exact wait_round (hkeep rfl) rfl
      · exact wait_round (hkeep rfl) rfl
      · exact wait_round (hkeep rfl) rfl
      · exact wait_round (hkeep rfl) rfl
      · exact ⟨touches_kept (hkeep rfl), .inr (.inl ⟨.append, rfl⟩)⟩
      · exact ⟨touches_kept (hkeep rfl), .inr (.inl ⟨.append, rfl⟩)⟩
      · exact push_round (hkeep rfl) fun pushed hget => Store.blockGetAt_get hget
      · exact ⟨touches_kept (hkeep rfl), .inl rfl⟩
      · exact ⟨touches_abort, .inl rfl⟩

theorem prepend_round : Touches env l .prepend b
      (processBlockDynamicPrepend_ env fails l stack b).ledger ∧
    Stacks l b stack (processBlockDynamicPrepend_ env fails l stack b) := by
  unfold processBlockDynamicPrepend_
  cases hrun : prependBlock_ env b (.begin_ l fails) with
  | ok u t =>
      exact ⟨.inr ⟨.prepend b, rfl, by simp, @BlockCall.effect env l (.prepend b) _ t u hrun⟩,
        .inl rfl⟩
  | error code t =>
      have hkeep := @BlockCall.keep_unchanged env (.prepend b) _ t code hrun
      dsimp only
      split
      · exact ⟨touches_kept (hkeep rfl), .inl rfl⟩
      · exact ⟨touches_abort, .inl rfl⟩

theorem rollback_round : Touches env l .rollback b
      (processBlockDynamicRollback_ env fails l stack b).ledger ∧
    Stacks l b stack (processBlockDynamicRollback_ env fails l stack b) := by
  unfold processBlockDynamicRollback_
  cases hrun : rollbackBlock_ env b (.begin_ l fails) with
  | ok u t =>
      exact ⟨.inr ⟨.rollback b, rfl, fun _ => rfl,
        @BlockCall.effect env l (.rollback b) _ t u hrun⟩, .inl rfl⟩
  | error code t =>
      have hkeep := @BlockCall.keep_unchanged env (.rollback b) _ t code hrun
      dsimp only
      split
      · exact ⟨touches_kept (hkeep rfl), .inl rfl⟩
      · exact wait_round (hkeep rfl) rfl
      · refine push_round (hkeep rfl) fun pushed hget => ?_
        obtain ⟨hash, -, hpushed⟩ := Option.bind_eq_some_iff.mp hget
        exact ⟨hash, hpushed⟩
      · refine push_round (hkeep rfl) fun pushed hget => ?_
        obtain ⟨previous, -, hpushed⟩ := Option.bind_eq_some_iff.mp hget
        exact headOf_get hpushed
      · exact push_round (hkeep rfl) fun pushed hget => headOf_get hget
      · exact ⟨touches_kept (hkeep rfl), .inr (.inl ⟨.append, rfl⟩)⟩
      · exact ⟨touches_abort, .inl rfl⟩

theorem confirm_round : Touches env l .confirm b
      (processBlockDynamicConfirm_ env fails l stack b).ledger ∧
    Stacks l b stack (processBlockDynamicConfirm_ env fails l stack b) := by
  unfold processBlockDynamicConfirm_
  cases hrun : confirmBlock_ env b (.begin_ l fails) with
  | ok height t =>
      have hcall : (BlockCall.confirm b).run env (.begin_ l fails) = .ok () t :=
        Process.bind_then hrun rfl
      exact ⟨.inr ⟨.confirm b, rfl, by simp, BlockCall.effect hcall⟩, .inl rfl⟩
  | error code t =>
      have hcall : (BlockCall.confirm b).run env (.begin_ l fails) = .error code t :=
        Process.bind_of_error hrun _
      have hkeep := BlockCall.keep_unchanged hcall
      dsimp only
      split
      · exact ⟨touches_kept (hkeep rfl), .inr (.inr ⟨rfl, .append, b, rfl, .inl rfl⟩)⟩
      · exact ⟨touches_abort, .inl rfl⟩

-- One lemma for the call of a round, whatever is on the top of the stack.
theorem top_round {operation : BlockOperation} : Touches env l operation b
      (processBlockDynamicTop env now fails l stack operation b).ledger ∧
    Stacks l b stack (processBlockDynamicTop env now fails l stack operation b) := by
  cases operation with
  | append => exact append_round
  | prepend => exact prepend_round
  | rollback => exact rollback_round
  | confirm => exact confirm_round
  | invalid => exact ⟨.inl rfl, .inl rfl⟩
  | drop => exact ⟨.inl rfl, .inl rfl⟩

end Rounds

section Loop

variable {env : Env} {blocks : Set Block} {A : Lattice env} {l : Ledger} {forks : ForkTable}
  {pending : Pending} {now : Nat} {fails : StoreCall → Bool}

-- Blocks that are to be rolled back belong to recorded accounts.
def StackWithin (blocks : Set Block) (stack : List BlockDynamic) (accounts : List Account) : Prop :=
  ∀ top ∈ stack, ∀ b, top.block = some b →
    b ∈ blocks ∧ (top.operation = .rollback → b.account ∈ accounts)

theorem StackWithin.mono {stack : List BlockDynamic} {accounts accounts' : List Account}
    (h : StackWithin blocks stack accounts) (hsub : ∀ a ∈ accounts, a ∈ accounts') :
    StackWithin blocks stack accounts' := fun top htop b hb =>
  ⟨(h top htop b hb).1, fun hop => hsub _ ((h top htop b hb).2 hop)⟩

-- What the loop keeps while it goes on from one ledger to another.
structure Carried (env : Env) (blocks : Set Block) (l : Ledger) (forks : ForkTable)
    (accounts : List Account) (l' : Ledger) (accounts' : List Account) : Prop where
  tracks : ∃ A' : Lattice env, Tracks blocks l' A'
  accounts_sub : ∀ a ∈ accounts, a ∈ accounts'
  counted : ∀ account, account ∉ accounts' → Counted l forks account → Counted l' forks account

theorem Carried.refl (h : Tracks blocks l A) (accounts : List Account) :
    Carried env blocks l forks accounts l accounts :=
  ⟨⟨A, h⟩, fun _ ha => ha, fun _ _ hcounted => hcounted⟩

theorem Carried.trans {l' l'' : Ledger} {accounts accounts' accounts'' : List Account}
    (h : Carried env blocks l forks accounts l' accounts')
    (h' : Carried env blocks l' forks accounts' l'' accounts'') :
    Carried env blocks l forks accounts l'' accounts'' :=
  ⟨h'.tracks, fun a ha => h'.accounts_sub a (h.accounts_sub a ha), fun account hout hcounted =>
    h'.counted account hout (h.counted account (fun hin => hout (h'.accounts_sub _ hin)) hcounted)⟩

theorem recordedAccounts_sub : ∀ a ∈ pending.accounts,
    a ∈ Processor.recordedAccounts env now fails l pending := by
  intro a ha
  unfold Processor.recordedAccounts
  split
  · dsimp only
    split
    · exact List.mem_insert_of_mem ha
    · exact ha
  · exact ha

-- The ledger and the stack that a round leaves.
def Round.ledger : Round → Ledger
  | .next l _ => l
  | .wait l _ => l
  | .finish l => l

def Round.stack : Round → List BlockDynamic
  | .next _ stack => stack
  | .wait _ stack => stack
  | .finish _ => []

theorem round_result {operation : BlockOperation} {b : Block} {rest : List BlockDynamic} :
    (processBlockDynamicRound env now fails l (⟨operation, some b⟩ :: rest)).ledger =
        (processBlockDynamicTop env now fails l (⟨operation, some b⟩ :: rest) operation b).ledger ∧
      ∀ top ∈ (processBlockDynamicRound env now fails l (⟨operation, some b⟩ :: rest)).stack,
        top ∈ (processBlockDynamicTop env now fails l (⟨operation, some b⟩ :: rest) operation
          b).stack := by
  unfold processBlockDynamicRound
  dsimp only
  split
  · exact ⟨rfl, fun _ htop => List.mem_of_mem_tail htop⟩
  · exact ⟨rfl, fun _ htop => htop⟩
  · exact ⟨rfl, fun _ htop => htop⟩
  · split
    · exact ⟨rfl, fun _ htop => List.mem_of_mem_tail htop⟩
    · exact ⟨rfl, fun _ htop => absurd htop List.not_mem_nil⟩
  · exact ⟨rfl, fun _ htop => List.mem_of_mem_tail htop⟩
  · exact ⟨rfl, fun _ htop => List.mem_of_mem_tail htop⟩
  · exact ⟨rfl, fun _ htop => absurd htop List.not_mem_nil⟩

-- A block that is pushed is in the ledger, or was on the stack before.
theorem stacks_within (h : Tracks blocks l A) {operation : BlockOperation} {b : Block}
    {rest : List BlockDynamic} {accounts : List Account}
    (hstack : StackWithin blocks (⟨operation, some b⟩ :: rest) accounts)
    (hstacks : Stacks l b (⟨operation, some b⟩ :: rest)
      (processBlockDynamicTop env now fails l (⟨operation, some b⟩ :: rest) operation b)) :
    StackWithin blocks
      (processBlockDynamicTop env now fails l (⟨operation, some b⟩ :: rest) operation b).stack
      (Processor.recordedAccounts env now fails l ⟨⟨operation, some b⟩ :: rest, accounts⟩) := by
  have hmono := hstack.mono
    (@recordedAccounts_sub env l ⟨⟨operation, some b⟩ :: rest, accounts⟩ now fails)
  rcases hstacks with hsame | ⟨asked, hwait⟩ | ⟨hcode, pushedOp, pushed, hpush, hfound⟩
  · rw [hsame]
    exact hmono
  · rw [hwait]
    intro top htop c hc
    rcases List.mem_cons.mp htop with rfl | htop
    · cases hc
    · exact hmono top htop c hc
  · have hrecorded : Processor.recordedAccounts env now fails l
        ⟨⟨operation, some b⟩ :: rest, accounts⟩ = accounts.insert pushed.account := by
      unfold Processor.recordedAccounts
      dsimp only
      rw [hcode, hpush]
    rw [hpush]
    rw [hrecorded] at hmono ⊢
    intro top htop c hc
    rcases List.mem_cons.mp htop with rfl | htop
    · obtain rfl := Option.some.inj hc
      refine ⟨?_, fun _ => List.mem_insert_self ..⟩
      rcases hfound with rfl | ⟨hash, hget⟩
      · exact (hstack _ List.mem_cons_self _ rfl).1
      · exact h.subset _ (h.represents.mem_of_get hget).1
    · exact hmono top htop c hc

theorem round_carried (hcf : CollisionFree env blocks) (h : Tracks blocks l A)
    (hstack : StackWithin blocks pending.stack pending.accounts) :
    Carried env blocks l forks pending.accounts
        (processBlockDynamicRound env now fails l pending.stack).ledger
        (Processor.recordedAccounts env now fails l pending) ∧
      StackWithin blocks (processBlockDynamicRound env now fails l pending.stack).stack
        (Processor.recordedAccounts env now fails l pending) := by
  obtain ⟨stack, accounts⟩ := pending
  cases stack with
  | nil => exact ⟨.refl h accounts, hstack⟩
  | cons top rest =>
      obtain ⟨operation, block⟩ := top
      cases block with
      | none => exact ⟨.refl h accounts, hstack⟩
      | some b =>
          obtain ⟨htouches, hstacks⟩ := @top_round env l (⟨operation, some b⟩ :: rest) b now fails
            operation
          obtain ⟨hledger, hsub⟩ := @round_result env l now fails operation b rest
          have hwithin := stacks_within h hstack hstacks
          refine ⟨⟨?_, recordedAccounts_sub, fun account hout hcounted => ?_⟩,
            fun top htop => hwithin top (hsub top htop)⟩
          · rw [hledger]
            rcases htouches with hstore | ⟨call, hb, -, heffect⟩
            · refine ⟨A, ?_, h.subset⟩
              rw [hstore]
              exact h.represents
            · have hmem : call.block ∈ blocks := hb ▸ (hstack _ List.mem_cons_self b rfl).1
              obtain ⟨A', -, hA'⟩ := heffect.tracks hcf hmem h
              exact ⟨A', hA'⟩
          · rw [hledger]
            rcases htouches with hstore | ⟨call, hb, hrollback, heffect⟩
            · exact hcounted.of_store hstore
            · have hmem := hstack _ List.mem_cons_self b rfl
              refine heffect.counted hcf (hb ▸ hmem.1) h (fun hcall => ?_) hcounted
              rintro rfl
              rw [hb] at hout
              exact hout (recordedAccounts_sub _ (hmem.2 (hrollback hcall)))

-- The run lemma of the loop, by its rounds.
theorem loop_carried (hcf : CollisionFree env blocks) (h : Tracks blocks l A)
    (hstack : StackWithin blocks pending.stack pending.accounts) {result : Processor.DynamicEnd}
    (hrun : Processor.ProcessBlockDynamic_ env l pending result) :
    match result with
    | .wait l' pending' => Carried env blocks l forks pending.accounts l' pending'.accounts ∧
        StackWithin blocks pending'.stack pending'.accounts
    | .finish l' accounts => Carried env blocks l forks pending.accounts l' accounts := by
  induction hrun generalizing A with
  | @next now fails l l' pending stack result hround hrest ih =>
      have hcarried := @round_carried env blocks A l forks pending now fails hcf h hstack
      rw [hround] at hcarried
      obtain ⟨⟨⟨A', hA'⟩, hsub, hcounted⟩, hwithin⟩ := hcarried
      have hfirst : Carried env blocks l forks pending.accounts l'
          (Processor.recordedAccounts env now fails l pending) := ⟨⟨A', hA'⟩, hsub, hcounted⟩
      have hlater := ih hA' hwithin
      cases result with
      | wait l'' pending' => exact ⟨hfirst.trans hlater.1, hlater.2⟩
      | finish l'' accounts => exact hfirst.trans hlater
  | @wait now fails l l' pending stack hround =>
      have hcarried := @round_carried env blocks A l forks pending now fails hcf h hstack
      rw [hround] at hcarried
      exact hcarried
  | @finish now fails l l' pending hround =>
      have hcarried := @round_carried env blocks A l forks pending now fails hcf h hstack
      rw [hround] at hcarried
      exact hcarried.1
  | refused _ => exact .refl h _

end Loop

end Raicoin
