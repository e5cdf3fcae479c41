import Raicoin.Node.BlockProcessor.ListsSpec
import Raicoin.Node.BlockProcessor.Replay
import Raicoin.Refinement.Reach
import Raicoin.Refinement.Restart

-- When the rich list and the delegator list are those that a restart computes.
namespace Raicoin

open Lib

-- A head with the entries of the one below it.
def SameHolding (previous : Option Block) (b : Block) : Prop :=
  b.type = .repBlock ∨
    ∃ p ∈ previous, p.representative = b.representative ∧ p.balance = b.balance

-- The two ways to lose track: an append that is aborted after it has updated the lists,
-- and a rollback, which never updates them.
def ListsSafe (env : Env) (l : Ledger) (fails : StoreCall → Bool) : BlockCall → Prop
  | .append now b =>
    LateRefused env now l.store fails b → SameHolding (headOf l.store b.account) b
  | .rollback b =>
    ∀ t, rollbackBlock_ env b (.begin_ l fails) = .ok () t →
      SameHolding (l.store.blockGet b.previous) b
  | _ => True

-- The runs of a node with both lists, from one restart on and through others. The first
-- ledger of a database has no entries for the genesis block.
inductive ListsRun (env : Env) (blocks : Set Block) : Ledger → Prop where
  | start {l l' : Ledger} {accounts : List Account} (hl : Reachable env blocks l)
      (henum : Enumerates l.store accounts)
      (hload : (Ledger.start true true l.store).initMemoryTables_ accounts = .ok l') :
      ListsRun env blocks l'
  | restart {l l' : Ledger} {accounts : List Account} (hl : ListsRun env blocks l)
      (henum : Enumerates l.store accounts)
      (hload : (Ledger.start true true l.store).initMemoryTables_ accounts = .ok l') :
      ListsRun env blocks l'
  | step {l l' : Ledger} {call : BlockCall} {fails : StoreCall → Bool}
      (hl : ListsRun env blocks l) (hmem : call.block ∈ blocks)
      (houtcome : Outcome env call fails l l') (hsafe : ListsSafe env l fails call) :
      ListsRun env blocks l'

section Entries

variable {s s' : Store} {b : Block} {x : Lists}

theorem entries_of_same {previous : Option Block} (h : SameHolding previous b)
    (htype : ∀ p ∈ previous, p.type = b.type) :
    previous.bind richEntry = richEntry b ∧ previous.bind delegatorEntry = delegatorEntry b := by
  rcases h with hrep | ⟨p, hp, hr, hb⟩
  · have hnone (c : Block) (hc : c.type = .repBlock) :
        richEntry c = none ∧ delegatorEntry c = none := by
      simp [richEntry, delegatorEntry, hc, (Block.representative_of_repBlock hc).1]
    cases previous with
    | none => exact ⟨(hnone b hrep).1.symm, (hnone b hrep).2.symm⟩
    | some p =>
        have hp := hnone p ((htype p rfl).trans hrep)
        exact ⟨hp.1.trans (hnone b hrep).1.symm, hp.2.trans (hnone b hrep).2.symm⟩
  · cases hp
    have ht := htype p rfl
    simp [richEntry, delegatorEntry, ht, hr, hb, Block.hasRepresentative_of_type ht]

-- The entries follow a head that moves to `b`.
theorem Lists.Show.follow (hx : x.Show s) (htype : ∀ p ∈ headOf s b.account, p.type = b.type)
    (hhead : ∀ account, (headOf s' account).bind richEntry =
      if account = b.account then richEntry b else (headOf s account).bind richEntry)
    (hhead' : ∀ account, (headOf s' account).bind delegatorEntry =
      if account = b.account then delegatorEntry b else (headOf s account).bind delegatorEntry) :
    (x.follow b).Show s' where
  enableRichList := by rw [Lists.follow_enableRichList, hx.enableRichList]
  enableDelegatorList := by rw [Lists.follow_enableDelegatorList, hx.enableDelegatorList]
  richList account := by
    rw [Lists.follow_richList hx.enableRichList, hhead, hx.richList]
    intro hne
    rw [hx.richList]
    cases hp : headOf s b.account with
    | none => rfl
    | some p => simp [richEntry, htype p hp, hne]
  delegatorList account := by
    rw [Lists.follow_delegatorList hx.enableDelegatorList, hhead', hx.delegatorList]
    intro hrep
    rw [hx.delegatorList]
    cases hp : headOf s b.account with
    | none => rfl
    | some p =>
        simp [delegatorEntry, Block.hasRepresentative_of_type (htype p hp), hrep]

-- Nothing has to follow a head with the entries of the old one.
theorem Lists.Show.stay (hx : x.Show s)
    (hhead : ∀ account, (headOf s' account).bind richEntry = (headOf s account).bind richEntry)
    (hhead' : ∀ account,
      (headOf s' account).bind delegatorEntry = (headOf s account).bind delegatorEntry) :
    x.Show s' :=
  ⟨hx.enableRichList, hx.enableDelegatorList,
    fun account => (hx.richList account).trans (hhead account).symm,
    fun account => (hx.delegatorList account).trans (hhead' account).symm⟩

end Entries

section Run

variable {env : Env} {blocks : Set Block} {l l' : Ledger} {A : Lattice env} {b : Block}

theorem head_type (h : Represents l.store A) (hext : A.Extends b) :
    ∀ p ∈ headOf l.store b.account, p.type = b.type := by
  intro p hp
  obtain ⟨hhead, haccount⟩ := h.headOf_eq_some.mp hp
  exact (A.push b hext).type_eq (Finset.mem_insert_of_mem (A.mem_heads.mp hhead).1)
    (Finset.mem_insert_self _ _) haccount

theorem append_lists {now : Nat} {on : Position} (h : Represents l.store A)
    (hext : A.Extends b) (hchecks : AppendChecks env now l.store b on)
    (hlists : l.lists.Show l.store) :
    (l.appended env b on).lists.Show (l.appended env b on).store := by
  have hafter := hchecks.represents h hext
  rw [← Ledger.appended_store] at hafter
  have hfollow : (l.appended env b on).lists = l.lists.follow b := by
    change ((({ l with store := appendedStore env l.store b on } : Ledger).updateRichList
      b).updateDelegatorList b).lists = _
    rw [Ledger.updateDelegatorList_lists, Ledger.updateRichList_lists]
    rfl
  rw [hfollow]
  refine hlists.follow (head_type h hext) (fun account => ?_) (fun account => ?_) <;>
    rw [h.headOf_push hafter] <;> split <;> rfl

theorem refused_lists {now : Nat} {fails : StoreCall → Bool} (hcf : CollisionFree env blocks)
    (hb : b ∈ blocks) (h : Represents l.store A) (hrefused : LateRefused env now l.store fails b)
    (hsame : SameHolding (headOf l.store b.account) b) (hlists : l.lists.Show l.store) :
    (l.lists.follow b).Show l.store := by
  obtain ⟨on, hchecks⟩ := hrefused.checks
  have htype := head_type h (hchecks.extends h (hcf.ne_zero b hb) (hcf.ne_genesis_link b hb)
    (hcf.height_ne b hb))
  obtain ⟨hrich, hdelegator⟩ := entries_of_same hsame htype
  refine hlists.follow htype (fun account => ?_) (fun account => ?_) <;> split <;> simp_all

theorem rollback_lists {info : AccountInfo} {previous : Option Block} (h : Represents l.store A)
    (hchecks : RollbackChecks env l.store b info previous)
    (hsame : SameHolding (l.store.blockGet b.previous) b) (hlists : l.lists.Show l.store) :
    l.lists.Show (l.removed env b info previous).store := by
  have hrem := hchecks.removable h
  have hafter : Represents (l.removed env b info previous).store (A.pop b hrem) :=
    hchecks.represents h hrem
  have hbefore := hchecks.before h
  have hprevious : l.store.blockGet b.previous = previous := by
    cases previous with
    | none =>
        rw [(A.opens b hrem.mem hbefore).previous, Option.eq_none_iff_forall_ne_some]
        intro p hp
        obtain ⟨hmem, hhash⟩ := h.mem_of_get hp
        exact A.hash_ne_zero p hmem hhash
    | some p =>
        obtain ⟨hp, hf⟩ := hbefore
        rw [(A.succeeds hp hrem.mem hf).previous, h.blockGet hp]
  rw [hprevious] at hsame
  have htype : ∀ p ∈ previous, p.type = b.type := by
    rintro p ⟨⟩
    exact (A.succeeds hbefore.1 hrem.mem hbefore.2).type.symm
  obtain ⟨hrich, hdelegator⟩ := entries_of_same hsame htype
  have hhead : headOf l.store b.account = some b :=
    h.headOf_eq_some.mpr ⟨A.mem_heads.mpr ⟨hrem.mem, hrem.top⟩, rfl⟩
  refine hlists.stay (fun account => ?_) (fun account => ?_) <;>
    rw [h.headOf_pop hafter hbefore] <;> split <;> simp_all

-- Only an append touches the lists.
theorem run_keeps_lists (call : BlockCall) (happend : ∀ now b, call ≠ .append now b) :
    Process.Keeps Transaction.beside (call.run env) := by
  cases call with
  | append now b => exact absurd rfl (happend now b)
  | prepend b => exact prependBlock_keeps env b
  | rollback b => exact rollbackBlock_keeps env b
  | confirm b => exact (confirmBlock_keeps env b).bind fun _ => Process.Keeps.pure _

theorem abort_lists (hcf : CollisionFree env blocks) {call : BlockCall}
    {fails : StoreCall → Bool} (hmem : call.block ∈ blocks) (h : Represents l.store A)
    {code : ErrorCode} {t : Transaction} (hrun : call.run env (.begin_ l fails) = .error code t)
    (hsafe : ListsSafe env l fails call) (hlists : l.lists.Show l.store) :
    (t.abort l).lists.Show (t.abort l).store := by
  change t.ledger.lists.Show l.store
  have hkept (happend : ∀ now b, call ≠ .append now b) : t.ledger.lists.Show l.store := by
    have hbeside := (run_keeps_lists call happend).2 _ _ _ hrun
    have hsame : t.ledger.lists = l.lists := (Prod.ext_iff.mp hbeside).1
    rwa [hsame]
  cases call with
  | append now b =>
      rcases appendBlock_lists hrun with hsame | ⟨hfollow, hrefused⟩
      · rwa [hsame]
      · rw [hfollow]
        exact refused_lists hcf hmem h hrefused (hsafe hrefused) hlists
  | prepend b => exact hkept (by simp)
  | rollback b => exact hkept (by simp)
  | confirm b => exact hkept (by simp)

theorem commit_lists (hcf : CollisionFree env blocks) {call : BlockCall}
    {fails : StoreCall → Bool} (hmem : call.block ∈ blocks) (h : Tracks blocks l A)
    {t : Transaction} (hrun : call.run env (.begin_ l fails) = .ok () t)
    (hsafe : ListsSafe env l fails call) (hlists : l.lists.Show l.store) :
    t.commit.lists.Show t.commit.store := by
  have heffect := BlockCall.effect hrun
  generalize t.commit = l' at heffect
  cases heffect with
  | append hchecks =>
      have hext := hchecks.extends h.represents (hcf.ne_zero _ hmem) (hcf.ne_genesis_link _ hmem)
        (hcf.height_ne _ hmem)
      exact append_lists h.represents hext hchecks hlists
  | rollback hchecks => exact rollback_lists h.represents hchecks (hsafe _ hrun) hlists
  | prepend hchecks =>
      exact absurd hchecks (checkPrepend_ne_ok h.represents (hcf.height_ne _ hmem))
  | confirm hchecks =>
      have hhead := h.represents.headOf_eq (represents_confirm hcf h hmem hchecks)
      exact hlists.stay (fun account => congrArg (·.bind richEntry) (hhead account))
        (fun account => congrArg (·.bind delegatorEntry) (hhead account))
  | confirmed => exact hlists

-- The step lemma.
theorem outcome_lists (hcf : CollisionFree env blocks) {call : BlockCall}
    {fails : StoreCall → Bool} (hmem : call.block ∈ blocks) (h : Tracks blocks l A)
    (houtcome : Outcome env call fails l l') (hsafe : ListsSafe env l fails call)
    (hlists : l.lists.Show l.store) : l'.lists.Show l'.store := by
  cases houtcome with
  | commit hrun => exact commit_lists hcf hmem h hrun hsafe hlists
  | keep code hrun hkeeps =>
      rw [BlockCall.keep_unchanged hrun hkeeps]
      exact hlists
  | abort code hrun => exact abort_lists hcf hmem h.represents hrun hsafe hlists

theorem restart_lists {accounts : List Account} (h : Tracks blocks l A)
    (henum : Enumerates l.store accounts)
    (hload : (Ledger.start true true l.store).initMemoryTables_ accounts = .ok l') :
    Tracks blocks l' A ∧ l'.lists.Show l'.store := by
  obtain ⟨l'', hl'', hstore, hshow⟩ := rebuilt_lists h.represents henum
  obtain rfl := Except.ok.inj (hl''.symm.trans hload)
  rw [hstore]
  exact ⟨⟨hstore ▸ h.represents, h.subset⟩, hshow⟩

-- The run lemma.
theorem ListsRun.lists (hcf : CollisionFree env blocks) (h : ListsRun env blocks l) :
    ∃ A : Lattice env, Tracks blocks l A ∧ l.lists.Show l.store := by
  induction h with
  | start hl henum hload =>
      obtain ⟨A, hA⟩ := hl.tracks hcf
      exact ⟨A, restart_lists hA henum hload⟩
  | restart hl henum hload ih =>
      obtain ⟨A, hA, -⟩ := ih
      exact ⟨A, restart_lists hA henum hload⟩
  | step hl hmem houtcome hsafe ih =>
      obtain ⟨A, hA, hlists⟩ := ih
      obtain ⟨A', hA'⟩ := Step.tracks hcf ⟨_, _, hmem, houtcome⟩ hA
      exact ⟨A', hA', outcome_lists hcf hmem hA houtcome hsafe hlists⟩

end Run

section Exact

-- The lists hold exactly what the heads ask for, and a restart finds the same.
structure ListsExact (l : Ledger) : Prop where
  richList : ∀ account, l.richList.get account = (headOf l.store account).bind richEntry
  delegatorList : ∀ account,
    l.delegatorList.get account = (headOf l.store account).bind delegatorEntry
  restart : ∀ accounts, Enumerates l.store accounts →
    ∃ l', (Ledger.start true true l.store).initMemoryTables_ accounts = .ok l' ∧
      l'.richList = l.richList ∧ l'.delegatorList = l.delegatorList

-- Committed or aborted appends, prepends, rollbacks and confirms and restarts, in any
-- order, as long as no step loses track.
theorem run_lists_exact {env : Env} {blocks : Set Block} {l : Ledger}
    (hcf : CollisionFree env blocks) (h : ListsRun env blocks l) : ListsExact l := by
  obtain ⟨A, hA, hlists⟩ := h.lists hcf
  refine ⟨hlists.richList, hlists.delegatorList, fun accounts henum => ?_⟩
  obtain ⟨l', hl', -, hshow⟩ := rebuilt_lists hA.represents henum
  have hsame := hshow.unique hlists
  exact ⟨l', hl', congrArg Lists.richList hsame, congrArg Lists.delegatorList hsame⟩

theorem ListsRun.replay {env : Env} {blocks : Set Block} {test : Ledger → Bool} {l l' : Ledger}
    (h : ListsRun env blocks l) {calls : List BlockCall}
    (hmem : ∀ call ∈ calls, call.block ∈ blocks)
    (hrollback : ∀ call ∈ calls, ∀ b, call = .rollback b → b.type = .repBlock)
    (hrun : replay env test l calls = some l') : ListsRun env blocks l' := by
  induction calls generalizing l with
  | nil =>
      obtain rfl := Option.some.inj hrun
      exact h
  | cons call calls ih =>
      obtain ⟨t, hcall, htest, hrest⟩ := replay_cons hrun
      refine ih (h.step (hmem call List.mem_cons_self) (.commit hcall) ?_)
        (fun c hc => hmem c (List.mem_cons_of_mem _ hc))
        (fun c hc => hrollback c (List.mem_cons_of_mem _ hc)) hrest
      cases call with
      | append now b =>
          intro hrefused
          obtain ⟨w, -, hfails⟩ := hrefused.late
          cases hfails
      | prepend b => trivial
      | rollback b => exact fun _ _ => .inl (hrollback _ List.mem_cons_self b rfl)
      | confirm b => trivial

-- A restart on the genesis block, then the start of the sample run and the rollback of
-- a reward.
def restartedLedger : Ledger :=
  match (Ledger.start true true (genesisLedger sampleEnv true true).store).initMemoryTables_
    [genesisPublicKey .test] with
  | .ok l => l
  | .error _ => genesisLedger sampleEnv true true

def listsCalls : List BlockCall :=
  [.append sampleNow sampleSend, .append sampleNow sampleReceive, .append sampleNow sampleReward,
    .confirm sampleReceive, .rollback sampleReward]

def listsLedger : Ledger :=
  (replay sampleEnv (fun _ => true) restartedLedger listsCalls).getD restartedLedger

theorem listsLedger_run : ListsRun sampleEnv {b | b ∈ sampleBlocks} listsLedger := by
  have hload : (Ledger.start true true (genesisLedger sampleEnv true true).store).initMemoryTables_
      [genesisPublicKey .test] = .ok restartedLedger := by
    have hok : ((Ledger.start true true
        (genesisLedger sampleEnv true true).store).initMemoryTables_
          [genesisPublicKey .test]).toBool = true := by
      decide +kernel
    unfold restartedLedger
    split <;> simp_all [Except.toBool]
  have hsome : (replay sampleEnv (fun _ => true) restartedLedger listsCalls).isSome := by
    decide +kernel
  obtain ⟨l, hl⟩ := Option.isSome_iff_exists.mp hsome
  have hmem : ∀ call ∈ listsCalls, call.block ∈ sampleBlocks := by decide +kernel
  have hrollback : ∀ call ∈ listsCalls, ∀ b, call = .rollback b → b.type = .repBlock := by
    simp [listsCalls, sampleReward, sampleRep, Block.type]
  have henum : Enumerates (genesisLedger sampleEnv true true).store [genesisPublicKey .test] := by
    refine ⟨List.nodup_singleton _, fun account => ?_⟩
    have hkeys : (genesisLedger sampleEnv true true).store.accounts.keys =
        {genesisPublicKey .test} := by
      decide +kernel
    rw [hkeys, List.mem_singleton, Finset.mem_singleton]
  rw [listsLedger, hl]
  exact (ListsRun.start (.genesis true true) henum hload).replay hmem hrollback hl

theorem listsLedger_exact : ListsExact listsLedger :=
  run_lists_exact sample_collisionFree listsLedger_run

-- The list of delegators has an account that does not exist.
def ghost (l : Ledger) : Bool := (headOf l.store 1).isNone && (l.delegatorList.get 1).isSome

theorem not_exact_of_ghost {l : Ledger} (h : ghost l = true) : ¬ListsExact l := by
  intro hexact
  have hentry := hexact.delegatorList 1
  unfold ghost at h
  cases hhead : headOf l.store 1 <;> simp_all

-- A transaction that failed leaves such a list.
def ghostLeft (l : Ledger) : EStateM.Result ErrorCode Transaction Unit → Bool
  | .ok _ _ => false
  | .error _ t => ghost (t.abort l)

-- So it is after a node has rolled back the block that opened the account 1, and after it
-- was refused the last write of appending that block.
theorem lists_left_behind : CollisionFree sampleEnv {b | b ∈ sampleBlocks} ∧
    (∃ l l', Reachable sampleEnv {b | b ∈ sampleBlocks} l ∧
      Outcome sampleEnv (.rollback sampleReceive) StoreCall.never l l' ∧ ¬ListsExact l') ∧
    ∃ l l', Reachable sampleEnv {b | b ∈ sampleBlocks} l ∧
      Outcome sampleEnv (.append sampleNow sampleReceive) (· = .receivableInfoDel) l l' ∧
      ¬ListsExact l' := by
  have hrun : (replay sampleEnv (fun _ => true) (genesisLedger sampleEnv true true)
      [.append sampleNow sampleSend]).any fun l =>
        ((replay sampleEnv (fun _ => true) l [.append sampleNow sampleReceive]).any fun l =>
          (replay sampleEnv ghost l [.rollback sampleReceive]).isSome) &&
        ghostLeft l (appendBlock_ sampleEnv sampleNow sampleReceive
          (.begin_ l (· = .receivableInfoDel))) := by
    decide +kernel
  obtain ⟨l, hl, hboth⟩ := Option.any_eq_true _ _ |>.mp hrun
  obtain ⟨hback, habort⟩ := Bool.and_eq_true_iff.mp hboth
  have hreach : Reachable sampleEnv {b | b ∈ sampleBlocks} l :=
    (Reachable.genesis true true).replay (by decide +kernel) hl
  refine ⟨sample_collisionFree, ?_, ?_⟩
  · obtain ⟨l₁, hl₁, hghost⟩ := Option.any_eq_true _ _ |>.mp hback
    obtain ⟨l₂, hl₂⟩ := Option.isSome_iff_exists.mp hghost
    obtain ⟨t, hok, rfl, hghost⟩ := replay_one hl₂
    exact ⟨l₁, _, hreach.replay (by decide +kernel) hl₁, .commit hok, not_exact_of_ghost hghost⟩
  · unfold ghostLeft at habort
    split at habort
    · cases habort
    · rename_i code t herror
      exact ⟨l, _, hreach, .abort code herror, not_exact_of_ghost habort⟩

end Exact

end Raicoin
