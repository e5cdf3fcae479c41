import Raicoin.Node.BlockProcessor.AppendSpec
import Raicoin.Node.BlockProcessor.Run
import Raicoin.Secure.Lists

-- What the calls do to the rich list and the delegator list, whether they commit or not.
namespace Raicoin

open Lib Lib.Process

-- The writes of an append that come after it has updated the lists.
def LateWrite (network : RaiNetworks) (previous : Option Block) (b : Block) : StoreCall → Prop
  | .rewardableInfoPut => ∃ p ∈ previous, p.hasRepresentative = true ∧
      rewardAmount network p.balance p.timestamp b.timestamp ≠ 0
  | .receivableInfoPut => b.opcode = .send
  | .receivableInfoDel => b.opcode = .receive
  | _ => False

-- The writes that come before.
def EarlyWrite (b : Block) : StoreCall → Prop
  | .blockPut | .accountInfoPut => True
  | .blockIndexPut => b.height % BLOCKS_PER_INDEX = 0
  | .blockSuccessorSet => b.height ≠ 0
  | _ => False

-- An append that is refused a write after it has updated the lists.
structure LateRefused (env : Env) (now : Nat) (s : Store) (fails : StoreCall → Bool) (b : Block) :
    Prop where
  checks : ∃ on, AppendChecks env now s b on
  early : ∀ w, EarlyWrite b w → fails w = false
  late : ∃ w, LateWrite env.network (headOf s b.account) b w ∧ fails w = true

-- What the writes of the tables leave alone.
def Transaction.beside (t : Transaction) : Lists × (StoreCall → Bool) := (t.ledger.lists, t.fails)

theorem write_keeps {f : (StoreCall → Bool) → Store → Option Store} {code : ErrorCode} :
    Keeps Transaction.beside (write f code) := by
  refine Keeps.update fun t t' h => ?_
  obtain ⟨s, -, rfl⟩ := Option.map_eq_some_iff.mp h
  rfl

theorem examine_keeps {α ρ : Type} {view : Transaction → ρ} {f : Store → Except ErrorCode α} :
    Keeps view (examine f) :=
  Keeps.check

theorem write_keeps_receivables {f : (StoreCall → Bool) → Store → Option Store} {code : ErrorCode}
    (h : ∀ fails s s', f fails s = some s' → s'.receivables = s.receivables) :
    Keeps (fun t : Transaction => t.store.receivables) (write f code) := by
  refine Keeps.update fun t t' he => ?_
  obtain ⟨s, hs, rfl⟩ := Option.map_eq_some_iff.mp he
  exact h _ _ _ hs

theorem write_eq_error {f : (StoreCall → Bool) → Store → Option Store} {code other : ErrorCode}
    {t t' : Transaction} (h : write f code t = .error other t') :
    f t.fails t.store = none ∧ t' = t := by
  obtain ⟨hnone, -, rfl⟩ := (update_eq_error _ _ _ _ _).mp h
  exact ⟨Option.map_eq_none_iff.mp hnone, rfl⟩

theorem OnHead.headOf {s : Store} {b p : Block} {info : AccountInfo} (h : OnHead s b info p) :
    headOf s b.account = some p := by
  simp [Raicoin.headOf, Store.accountInfoGet, h.info_get, h.head_get]

namespace AppendBlockVisitor

variable {env : Env} {now : Nat} {b p : Block} {info : AccountInfo} {t t' : Transaction}
  {code : ErrorCode} {u : Unit}

theorem putBlockSuccessor_keeps : Keeps Transaction.beside (putBlockSuccessor env b) :=
  write_keeps.bind fun _ => write_keeps

theorem putRewardableInfo_keeps : Keeps Transaction.beside (putRewardableInfo env p b) := by
  unfold putRewardableInfo
  split
  · exact Keeps.pure _
  · dsimp only
    split
    · exact write_keeps
    · exact Keeps.pure _

theorem updateAccountInfo_lists (h : updateAccountInfo env b info t = .ok u t') :
    t'.beside = (t.ledger.lists.updateRich b, t.fails) := by
  obtain ⟨_, mid, hwrite, hmodify⟩ := (bind_eq_ok _ _ _ _ _).mp h
  obtain rfl := (modify_eq_ok _ _ _ _).mp hmodify
  have hmid := write_keeps.1 _ _ _ hwrite
  simp only [Transaction.beside, Prod.mk.injEq] at hmid ⊢
  simp [Transaction.updateRichList, hmid]

theorem updateRepInfo_lists (h : updateRepInfo p b t = .ok u t') :
    t'.beside = (t.ledger.lists.updateDelegators b, t.fails) := by
  unfold updateRepInfo at h
  split at h
  · rename_i hrep
    obtain ⟨-, rfl⟩ := (pure_eq_ok _ _ _ _).mp h
    simp [Transaction.beside, Lists.updateDelegators, hrep]
  · obtain rfl := (modify_eq_ok _ _ _ _).mp h
    simp only [Transaction.beside, Transaction.updateDelegatorList,
      Ledger.updateDelegatorList_lists]
    rfl

theorem extend_lists (h : extend env b info p t = .ok u t') :
    t'.beside = (t.ledger.lists.follow b, t.fails) := by
  simp only [extend, bind_eq_ok] at h
  obtain ⟨_, t₁, h₁, _, t₂, h₂, _, t₃, h₃, h₄⟩ := h
  have hb₁ := putBlockSuccessor_keeps.1 _ _ _ h₁
  have hb₂ := updateAccountInfo_lists h₂
  have hb₃ := updateRepInfo_lists h₃
  have hb₄ := putRewardableInfo_keeps.1 _ _ _ h₄
  simp only [Transaction.beside, Prod.mk.injEq] at hb₁ hb₂ hb₃ hb₄ ⊢
  rw [hb₄.1, hb₄.2, hb₃.1, hb₃.2, hb₂.1, hb₂.2, hb₁.1, hb₁.2]
  exact ⟨rfl, rfl⟩

theorem putRewardableInfo_error (h : putRewardableInfo env p b t = .error code t') :
    p.hasRepresentative = true ∧
      rewardAmount env.network p.balance p.timestamp b.timestamp ≠ 0 ∧
      t.fails .rewardableInfoPut = true := by
  unfold putRewardableInfo at h
  split at h
  · cases h
  · rename_i hrep
    dsimp only at h
    split at h
    · rename_i hne
      have hnone := (write_eq_error h).1
      exact ⟨by simpa using hrep, hne.1, by simpa [Store.rewardableInfoPut] using hnone⟩
    · cases h

-- Where a failed append leaves the lists.
def ListsAfter (env : Env) (b : Block) (previous : Option Block) (t t' : Transaction) : Prop :=
  t'.ledger.lists = t.ledger.lists ∨
    t'.ledger.lists = t.ledger.lists.follow b ∧ (∀ w, EarlyWrite b w → t.fails w = false) ∧
      ∃ w, LateWrite env.network previous b w ∧ t.fails w = true

theorem lists_of_keeps {α : Type} {m : TransactionM α} (hkeeps : Keeps Transaction.beside m)
    (h : m t = .error code t') : t'.ledger.lists = t.ledger.lists :=
  (Prod.ext_iff.mp (hkeeps.2 _ _ _ h)).1

theorem listsAfter_of_keeps {α : Type} {m : TransactionM α} {previous : Option Block}
    (hkeeps : Keeps Transaction.beside m) (h : m t = .error code t') :
    ListsAfter env b previous t t' :=
  .inl (lists_of_keeps hkeeps h)

theorem blockPut_allowed {v : Unit} {other : ErrorCode}
    (h : write (fun fails s => s.blockPut fails (env.hash b) b 0) other t = .ok v t') :
    t.fails .blockPut = false ∧ (b.height % BLOCKS_PER_INDEX = 0 → t.fails .blockIndexPut = false) := by
  obtain ⟨s, hs, -⟩ := write_eq_ok.mp h
  exact Store.blockPut_allowed hs

theorem accountInfoPut_allowed {v : Unit} {other : ErrorCode} {account : Account}
    {new : AccountInfo}
    (h : write (fun fails s => s.accountInfoPut fails account new) other t = .ok v t') :
    t.fails .accountInfoPut = false := by
  obtain ⟨s, hs, -⟩ := write_eq_ok.mp h
  exact (Store.accountInfoPut_eq_some.mp hs).1

theorem putBlockSuccessor_allowed (h : putBlockSuccessor env b t = .ok u t') :
    t.fails .blockPut = false ∧
      (b.height % BLOCKS_PER_INDEX = 0 → t.fails .blockIndexPut = false) ∧
      t.fails .blockSuccessorSet = false := by
  obtain ⟨_, mid, hput, hset⟩ := (bind_eq_ok _ _ _ _ _).mp h
  obtain ⟨hallowed, hindex⟩ := blockPut_allowed hput
  obtain ⟨s, hs, -⟩ := write_eq_ok.mp hset
  have hmid := write_keeps.1 _ _ _ hput
  simp only [Transaction.beside, Prod.mk.injEq] at hmid
  exact ⟨hallowed, hindex, hmid.2 ▸ (Store.blockSuccessorSet_eq_some.mp hs).1⟩

theorem extend_allowed (h₁ : putBlockSuccessor env b t = .ok u t')
    {v : Unit} {t'' : Transaction} (h₂ : updateAccountInfo env b info t' = .ok v t'') :
    ∀ w, EarlyWrite b w → t.fails w = false := by
  obtain ⟨hput, hindex, hset⟩ := putBlockSuccessor_allowed h₁
  obtain ⟨_, mid, hwrite, -⟩ := (bind_eq_ok _ _ _ _ _).mp h₂
  have hinfo := accountInfoPut_allowed hwrite
  have hb₁ := putBlockSuccessor_keeps.1 _ _ _ h₁
  simp only [Transaction.beside, Prod.mk.injEq] at hb₁
  rw [hb₁.2] at hinfo
  rintro (_ | _) hw <;> simp_all [EarlyWrite]

-- The error comes before the lists, or from the write of a reward after them.
theorem extend_error (h : extend env b info p t = .error code t') :
    ListsAfter env b (some p) t t' := by
  simp only [extend, bind_eq_error] at h
  rcases h with h | ⟨_, t₁, h₁, h | ⟨_, t₂, h₂, h | ⟨_, t₃, h₃, h⟩⟩⟩
  · exact listsAfter_of_keeps putBlockSuccessor_keeps h
  · have hb₁ := putBlockSuccessor_keeps.1 _ _ _ h₁
    rcases (bind_eq_error _ _ _ _ _).mp h with h | ⟨_, _, -, h⟩
    · have hb := write_keeps.2 _ _ _ h
      exact .inl (Prod.ext_iff.mp (hb.trans hb₁)).1
    · cases h
  · unfold updateRepInfo at h
    split at h <;> cases h
  · have hearly := extend_allowed h₁ h₂
    have hb₁ := putBlockSuccessor_keeps.1 _ _ _ h₁
    have hb₂ := updateAccountInfo_lists h₂
    have hb₃ := updateRepInfo_lists h₃
    obtain ⟨hrep, hamount, hfails⟩ := putRewardableInfo_error h
    have hb₄ := putRewardableInfo_keeps.2 _ _ _ h
    simp only [Transaction.beside, Prod.mk.injEq] at hb₁ hb₂ hb₃ hb₄
    refine .inr ⟨?_, hearly, .rewardableInfoPut, ⟨p, rfl, hrep, hamount⟩, ?_⟩
    · rw [hb₄.1, hb₃.1, hb₂.1, hb₁.1]
      rfl
    · rwa [hb₃.2, hb₂.2, hb₁.2] at hfails

-- The last write of a method that extends an account.
theorem extend_write_error {f : (StoreCall → Bool) → Store → Option Store} {other : ErrorCode}
    {w : StoreCall} (hhead : OnHead t.store b info p)
    (hfresh : t.store.blocks.get (env.hash b) = none)
    (hlate : LateWrite env.network (some p) b w)
    (hrefused : f t.fails (extendedStore env t.store b info p) = none → t.fails w = true)
    (h : (extend env b info p >>= fun _ => write f other) t = .error code t') :
    ListsAfter env b (some p) t t' := by
  rcases (bind_eq_error _ _ _ _ _).mp h with h | ⟨_, t₁, h₁, h⟩
  · exact extend_error h
  · have hlists := (Prod.ext_iff.mp (extend_lists h₁)).1
    have hmoved := extend_ok h₁ (hhead.previous ▸ hhead.head_get) hfresh
    obtain ⟨hnone, rfl⟩ := write_eq_error h
    rw [hmoved, moved_fails, moved_store] at hnone
    obtain ⟨_, t₂, hput, hrest⟩ := (bind_eq_ok _ _ _ _ _).mp h₁
    obtain ⟨_, t₃, hinfo, -⟩ := (bind_eq_ok _ _ _ _ _).mp hrest
    exact .inr ⟨hlists, extend_allowed hput hinfo, w, hlate, hrefused hnone⟩

-- An append that fails leaves the lists as they were, or was refused a write after them.
def FailsWithLists (env : Env) (now : Nat) (method : Block → TransactionM Unit) (b : Block) : Prop :=
  ∀ {t t' : Transaction} {code : ErrorCode}, method b t = .error code t' →
    t'.ledger.lists = t.ledger.lists ∨
      t'.ledger.lists = t.ledger.lists.follow b ∧ LateRefused env now t.store t.fails b

theorem ListsAfter.refused {on : Position} (hchecks : AppendChecks env now t.store b on)
    (h : ListsAfter env b on.head t t') : t'.ledger.lists = t.ledger.lists ∨
      t'.ledger.lists = t.ledger.lists.follow b ∧ LateRefused env now t.store t.fails b := by
  refine h.imp id fun ⟨hlists, hearly, w, hlate, hfails⟩ =>
    ⟨hlists, ⟨on, hchecks⟩, hearly, w, ?_, hfails⟩
  cases on with
  | none => cases w <;> simp_all [LateWrite, Position.head]
  | some place =>
      obtain ⟨info, p⟩ := place
      rwa [hchecks.placed.1.headOf]

theorem send_lists (hlegal : b.Legal) (hop : b.opcode = .send) :
    FailsWithLists env now (send env now) b := by
  intro t t' code h
  rcases (bind_eq_error _ _ _ _ _).mp h with h | ⟨⟨info, p⟩, _, hexamined, h⟩
  · exact .inl (lists_of_keeps examine_keeps h)
  · obtain ⟨hok, rfl⟩ := examine_eq_ok.mp hexamined
    have hchecks := checkSend_ok hlegal (.inl hop) hok
    refine ListsAfter.refused hchecks (extend_write_error hchecks.placed.1 hchecks.fresh
      (show LateWrite _ _ _ .receivableInfoPut from hop) (fun hnone => ?_) h)
    simpa [Store.receivableInfoPut] using hnone

theorem extend_only_lists (check : Store → Block → Except ErrorCode (AccountInfo × Block))
    (hcheck : ∀ {s info p}, check s b = .ok (info, p) → AppendChecks env now s b (some (info, p))) :
    FailsWithLists env now (fun b => do
      let (info, headBlock) ← examine fun s => check s b
      extend env b info headBlock) b := by
  intro t t' code h
  rcases (bind_eq_error _ _ _ _ _).mp h with h | ⟨⟨info, p⟩, _, hexamined, h⟩
  · exact .inl (lists_of_keeps examine_keeps h)
  · obtain ⟨hok, rfl⟩ := examine_eq_ok.mp hexamined
    exact ListsAfter.refused (hcheck hok) (extend_error h)

theorem bind_lists (hlegal : b.Legal) (hop : b.opcode = .bind) :
    FailsWithLists env now (bind env now) b := by
  intro t t' code h
  refine .inl ?_
  rcases (bind_eq_error _ _ _ _ _).mp h with h | ⟨⟨info, p, count⟩, _, hexamined, h⟩
  · exact lists_of_keeps examine_keeps h
  · obtain ⟨hok, rfl⟩ := examine_eq_ok.mp hexamined
    -- BIND is for REP blocks, which are in no list
    rcases (bind_eq_error _ _ _ _ _).mp h with h | ⟨_, t₁, h₁, h⟩
    · exact lists_of_keeps write_keeps h
    · have hb₁ := write_keeps.1 _ _ _ h₁
      rcases (bind_eq_error _ _ _ _ _).mp h with h | ⟨_, t₂, h₂, h⟩
      · exact (Prod.ext_iff.mp ((write_keeps.2 _ _ _ h).trans hb₁)).1
      · have hb₂ := write_keeps.1 _ _ _ h₂
        have hlists := (Prod.ext_iff.mp (hb₂.trans hb₁)).1
        have hafter := extend_error h
        unfold ListsAfter at hafter
        rw [Lists.follow_repBlock _ _ (hlegal.repBlock (.inr hop))] at hafter
        exact (hafter.elim id And.left).trans hlists

theorem openRepInfo_lists (h : openRepInfo b t = .ok u t') :
    t'.beside = (t.ledger.lists.updateDelegators b, t.fails) := by
  unfold openRepInfo at h
  split at h
  · obtain rfl := (modify_eq_ok _ _ _ _).mp h
    simp only [Transaction.beside, Transaction.updateDelegatorList,
      Ledger.updateDelegatorList_lists]
    rfl
  · rename_i hrep
    obtain ⟨-, rfl⟩ := (pure_eq_ok _ _ _ _).mp h
    simp [Transaction.beside, Lists.updateDelegators, hrep]

theorem openRepInfo_keeps_receivables :
    Keeps (fun t : Transaction => t.store.receivables) (openRepInfo b) := by
  unfold openRepInfo
  split
  · exact Keeps.modify fun t => by simp
  · exact Keeps.pure _

-- The last write of a first RECEIVE.
theorem receiveFirst_error {info : ReceivableInfo} (hheight : b.height = 0)
    (hinfo : t.store.receivables.get (b.account, b.link) = some info) (hop : b.opcode = .receive)
    {previous : Option Block}
    (h : (do
      write (fun fails s => s.blockPut fails (env.hash b) b 0) .BLOCK_PROCESS_LEDGER_BLOCK_PUT
      write (fun fails s => s.accountInfoPut fails b.account
        (.first b.type (env.hash b))) .BLOCK_PROCESS_LEDGER_ACCOUNT_INFO_PUT
      modify (Transaction.updateRichList b)
      openRepInfo b
      write (fun fails s => s.receivableInfoDel fails b.account b.link)
        .BLOCK_PROCESS_LEDGER_RECEIVABLE_INFO_DEL : TransactionM Unit) t = .error code t') :
    ListsAfter env b previous t t' := by
  rcases (bind_eq_error _ _ _ _ _).mp h with h | ⟨_, t₁, h₁, hrest₁⟩
  · exact listsAfter_of_keeps write_keeps h
  rcases (bind_eq_error _ _ _ _ _).mp hrest₁ with h | ⟨_, t₂, h₂, hrest₂⟩
  · exact listsAfter_of_keeps (write_keeps.bind fun _ => write_keeps)
      ((bind_eq_error _ _ _ _ _).mpr (.inr ⟨_, _, h₁, h⟩))
  rcases (bind_eq_error _ _ _ _ _).mp hrest₂ with h | ⟨_, t₃, h₃, hrest₃⟩
  · cases h
  rcases (bind_eq_error _ _ _ _ _).mp hrest₃ with h | ⟨_, t₄, h₄, hlast⟩
  · unfold openRepInfo at h
    split at h <;> cases h
  obtain ⟨hput, hindex⟩ := blockPut_allowed h₁
  have haccount := accountInfoPut_allowed h₂
  have hb₁ := write_keeps.1 _ _ _ h₁
  have hb₂ := write_keeps.1 _ _ _ h₂
  have hr₁ := (write_keeps_receivables fun fails s s' hs => by
    rw [Store.blockPut_eq_some hs]; rfl).1 _ _ _ h₁
  have hr₂ := (write_keeps_receivables fun fails s s' hs => by
    obtain ⟨-, rfl⟩ := Store.accountInfoPut_eq_some.mp hs; rfl).1 _ _ _ h₂
  obtain rfl := (modify_eq_ok _ _ _ _).mp h₃
  have hb₄ := openRepInfo_lists h₄
  have hr₄ := openRepInfo_keeps_receivables.1 _ _ _ h₄
  obtain ⟨hnone, rfl⟩ := write_eq_error hlast
  simp only [Transaction.beside, Prod.mk.injEq] at hb₁ hb₂ hb₄
  simp only [Transaction.updateRichList_store] at hr₁ hr₂ hr₄
  rw [hb₁.2] at haccount
  refine .inr ⟨?_, ?_, .receivableInfoDel, hop, ?_⟩
  · rw [hb₄.1, Lists.follow, ← hb₁.1, ← hb₂.1]
    simp [Transaction.updateRichList]
  · rintro (_ | _) hw <;> simp_all [EarlyWrite]
  · rw [Store.receivableInfoDel, hr₄, hr₂, hr₁, hinfo, hb₄.2, Transaction.updateRichList_fails,
      hb₂.2, hb₁.2] at hnone
    simpa using hnone

theorem receive_lists (hlegal : b.Legal) (hop : b.opcode = .receive) :
    FailsWithLists env now (receive env now) b := by
  intro t t' code h
  rcases (bind_eq_error _ _ _ _ _).mp h with h | ⟨_, _, hexamined, hrest⟩
  · exact .inl (lists_of_keeps examine_keeps h)
  · obtain ⟨hok, rfl⟩ := examine_eq_ok.mp hexamined
    simp only [Except.bind_eq_ok, Except.pure_eq_ok] at hok
    obtain ⟨_, hcommon, rfl⟩ := hok
    cases hinfo : accountInfo t.store b with
    | none =>
        rw [hinfo] at hrest
        rcases (bind_eq_error _ _ _ _ _).mp hrest with h | ⟨_, _, hchecked, hlast⟩
        · exact .inl (lists_of_keeps examine_keeps h)
        · obtain ⟨hfirst, rfl⟩ := examine_eq_ok.mp hchecked
          have hchecks := receiveFirst_checks hlegal hop hcommon hinfo hfirst
          obtain ⟨receivable, -, hreceivable, -⟩ := hchecks.receive hop
          exact ListsAfter.refused hchecks
            (receiveFirst_error hchecks.placed.2.height hreceivable hop hlast)
    | some info =>
        rw [hinfo] at hrest
        rcases (bind_eq_error _ _ _ _ _).mp hrest with h | ⟨p, _, hchecked, hlast⟩
        · exact .inl (lists_of_keeps examine_keeps h)
        · obtain ⟨hok, rfl⟩ := examine_eq_ok.mp hchecked
          have hchecks := receive_checks hlegal hop hcommon hinfo hok
          obtain ⟨receivable, -, hreceivable, -⟩ := hchecks.receive hop
          refine ListsAfter.refused hchecks (extend_write_error hchecks.placed.1 hchecks.fresh
            (show LateWrite _ _ _ .receivableInfoDel from hop) (fun hnone => ?_) hlast)
          rw [Store.receivableInfoDel] at hnone
          simpa [extendedStore, hreceivable] using hnone

theorem updateAccountInfo_keeps (htype : b.type ≠ .txBlock) :
    Keeps Transaction.beside (updateAccountInfo env b info) :=
  write_keeps.bind fun _ => Keeps.modify fun t => by rw [t.updateRichList_of_ne b htype]

-- REWARD is for REP blocks too.
theorem reward_keeps (hlegal : b.Legal) (hop : b.opcode = .reward) :
    Keeps Transaction.beside (reward env now b) := by
  refine examine_keeps.bind fun found => ?_
  cases found with
  | none =>
      exact examine_keeps.bind fun _ => write_keeps.bind fun _ => write_keeps.bind fun _ =>
        write_keeps
  | some info =>
      have htype : b.type ≠ .txBlock := by simp [hlegal.repBlock (.inl hop)]
      exact examine_keeps.bind fun _ => putBlockSuccessor_keeps.bind fun _ =>
        (updateAccountInfo_keeps htype).bind fun _ => write_keeps

end AppendBlockVisitor

theorem appendBlock_lists {env : Env} {now : Nat} {b : Block} {t t' : Transaction}
    {code : ErrorCode} (h : appendBlock_ env now b t = .error code t') :
    t'.ledger.lists = t.ledger.lists ∨
      t'.ledger.lists = t.ledger.lists.follow b ∧ LateRefused env now t.store t.fails b := by
  unfold appendBlock_ at h
  by_cases hlegal : b.Legal
  · rw [Block.visit_legal _ _ hlegal] at h
    cases hop : b.opcode <;> rw [hop] at h
    · exact .inl (AppendBlockVisitor.lists_of_keeps (Keeps.throw _) h)
    · exact AppendBlockVisitor.send_lists hlegal hop h
    · exact AppendBlockVisitor.receive_lists hlegal hop h
    · exact AppendBlockVisitor.extend_only_lists (AppendBlockVisitor.checkChange env now)
        (AppendBlockVisitor.checkChange_ok hlegal hop) h
    · exact AppendBlockVisitor.extend_only_lists (AppendBlockVisitor.checkCredit env now)
        (AppendBlockVisitor.checkCredit_ok hlegal hop) h
    · exact .inl (AppendBlockVisitor.lists_of_keeps (AppendBlockVisitor.reward_keeps hlegal hop) h)
    · exact AppendBlockVisitor.extend_only_lists (AppendBlockVisitor.checkDestroy env now)
        (AppendBlockVisitor.checkSend_ok hlegal (.inr hop)) h
    · exact AppendBlockVisitor.bind_lists hlegal hop h
  · rw [Block.visit_illegal _ _ hlegal] at h
    exact .inl (AppendBlockVisitor.lists_of_keeps (Keeps.throw _) h)

namespace RollbackBlockVisitor

variable {env : Env} {b : Block}

theorem shrink_keeps {checked : Checked} : Keeps Transaction.beside (shrink env b checked) := by
  refine Keeps.bind ?_ fun _ => write_keeps.bind fun _ => Keeps.bind ?_ fun _ =>
    Keeps.bind ?_ fun _ => ?_
  · refine write_keeps.bind fun _ => ?_
    split
    · exact write_keeps
    · exact Keeps.pure _
  · unfold updateAccountInfo
    split <;> exact write_keeps
  · unfold deleteRewardableInfo
    split
    · exact write_keeps
    · exact Keeps.pure _
  · unfold updateRepWeight
    split
    · exact Keeps.pure _
    · refine Keeps.modify fun t => ?_
      split <;> rfl

theorem bind_keeps : Keeps Transaction.beside (bind env b) := by
  refine examine_keeps.bind fun _ => write_keeps.bind fun _ => ?_
  dsimp only
  split
  · exact write_keeps.bind fun _ => shrink_keeps
  · exact write_keeps.bind fun _ => shrink_keeps

end RollbackBlockVisitor

-- A rollback does not know of the lists.
theorem rollbackBlock_keeps (env : Env) (b : Block) :
    Keeps Transaction.beside (rollbackBlock_ env b) := by
  have hwrite {α : Type} {check : Store → Except ErrorCode α}
      {f : α → (StoreCall → Bool) → Store → Option Store} {code : ErrorCode}
      {checked : α → RollbackBlockVisitor.Checked} : Keeps Transaction.beside (do
        let found ← examine check
        write (f found) code
        RollbackBlockVisitor.shrink env b (checked found) : TransactionM Unit) :=
    examine_keeps.bind fun _ => write_keeps.bind fun _ => RollbackBlockVisitor.shrink_keeps
  have hplain {check : Store → Except ErrorCode RollbackBlockVisitor.Checked} :
      Keeps Transaction.beside (do
        let checked ← examine check
        RollbackBlockVisitor.shrink env b checked : TransactionM Unit) :=
    examine_keeps.bind fun _ => RollbackBlockVisitor.shrink_keeps
  unfold rollbackBlock_
  by_cases hlegal : b.Legal
  · rw [Block.visit_legal _ _ hlegal]
    cases b.opcode with
    | invalid => exact Keeps.throw _
    | send => exact hwrite
    | receive => exact hwrite
    | change => exact hplain
    | credit => exact hplain
    | reward => exact hwrite
    | destroy => exact hplain
    | bind => exact RollbackBlockVisitor.bind_keeps
  · rw [Block.visit_illegal _ _ hlegal]
    exact Keeps.throw _

theorem prependBlock_keeps (env : Env) (b : Block) :
    Keeps Transaction.beside (prependBlock_ env b) :=
  examine_keeps.bind fun _ => write_keeps.bind fun _ => write_keeps

theorem confirmBlock_keeps (env : Env) (b : Block) :
    Keeps Transaction.beside (confirmBlock_ env b) := by
  refine examine_keeps.bind fun _ => ?_
  split
  · exact write_keeps.bind fun _ => Keeps.pure _
  · exact Keeps.pure _

end Raicoin
