import Raicoin.Node.BlockProcessor.Replay
import Raicoin.Node.Syncer

-- The syncer asks for one block of an account at a time, and for the one that its entry names. A
-- batch that is finished stays finished, unless a thread is still between two locks with it.
namespace Raicoin

open Lib

-- What works on behalf of an account's entry while it is at `QUERY`: the query, from before it
-- is made until its answer is taken in.
def SyncTask.claims (account : Account) : SyncTask → Bool
  | .blockQuery other _ _ => other = account
  | .ask query => query.account = some account
  | .queryCallback other _ _ => other = account
  | .erase other => other = account
  | _ => false

-- It asks for the block that the entry names, and has got that block if it has got one.
def SyncTask.Suits (account : Account) (info : SyncInfo) : SyncTask → Prop
  | .blockQuery _ asked batchId =>
    asked.height = info.height ∧ asked.previous = info.previous ∧ batchId = info.batchId
  | .ask query => query.target = Syncer.targetOf account info.height info.previous
  | .queryCallback _ status block =>
    (status = .success ∨ status = .fork → ∃ b, block = some b ∧ b.account = account) ∧
      (status = .success → ∀ b, block = some b → b.height = info.height.toNat ∧
        (info.height ≠ 0 → info.previous ≠ 0 → b.previous = info.previous))
  | _ => True

-- The numbers of queries that are held, by a query or by a thread that will give it back.
def SyncTask.holds (queryId : UInt64) : SyncTask → Bool
  | .ask query => query.queryId = queryId
  | .eraseQuery other => other = queryId
  | _ => false

-- All that is under way: the queries that wait for an answer, and what threads have still to do.
def Syncer.works (s : Syncer) : List SyncTask := s.live.map .ask ++ s.threads.flatten

def Claimed (account : Account) (entry : Option SyncInfo) (works : List SyncTask) : Prop :=
  match entry with
  | none => works = []
  | some info =>
    if info.status = .query then ∃ task, works = [task] ∧ task.Suits account info else works = []

theorem Claimed.query {account : Account} {info : SyncInfo} {task : SyncTask}
    (hquery : info.status = .query) (hsuits : task.Suits account info) :
    Claimed account (some info) [task] := by
  change if _ then _ else _
  rw [if_pos hquery]
  exact ⟨task, rfl, hsuits⟩

theorem Claimed.process {account : Account} {info : SyncInfo} (hprocess : info.status ≠ .query) :
    Claimed account (some info) [] := by
  change if _ then _ else _
  rw [if_neg hprocess]

-- An entry at `QUERY` has one work of its own, and other accounts have none.
def OneEach (syncs : Table Account SyncInfo) (works : List SyncTask) : Prop :=
  ∀ account, Claimed account (syncs.get account) (works.filter (SyncTask.claims account))

section OneEach

variable {syncs syncs' : Table Account SyncInfo} {works more : List SyncTask} {task : SyncTask}
  {account : Account}

theorem OneEach.perm (h : OneEach syncs works) {others : List SyncTask} (hperm : works.Perm others) :
    OneEach syncs others := by
  intro account
  have hfilter := hperm.filter (SyncTask.claims account)
  have hclaimed := h account
  unfold Claimed at hclaimed ⊢
  split at hclaimed
  · rw [hclaimed] at hfilter
    exact hfilter.nil_eq.symm
  · split at hclaimed
    · obtain ⟨task, heq, hsuits⟩ := hclaimed
      rw [heq] at hfilter
      rw [if_pos ‹_›]
      exact ⟨task, List.singleton_perm.mp hfilter |>.symm, hsuits⟩
    · rw [hclaimed] at hfilter
      rw [if_neg ‹_›]
      exact hfilter.nil_eq.symm

-- The entry of a work, and that it is the only one.
theorem OneEach.entry (h : OneEach syncs (task :: works)) (account : Account)
    (hclaims : task.claims account = true) :
    ∃ info, syncs.get account = some info ∧ info.status = .query ∧ task.Suits account info ∧
      works.filter (SyncTask.claims account) = [] := by
  have hclaimed := h account
  rw [List.filter_cons_of_pos hclaims] at hclaimed
  unfold Claimed at hclaimed
  split at hclaimed
  · cases hclaimed
  · rename_i info hget
    split at hclaimed
    · obtain ⟨only, heq, hsuits⟩ := hclaimed
      obtain ⟨rfl, hrest⟩ := List.cons.inj heq
      exact ⟨info, hget, ‹_›, hsuits, hrest⟩
    · cases hclaimed

theorem OneEach.of_mem (h : OneEach syncs works) (hmem : task ∈ works)
    (hclaims : task.claims account = true) : ∃ info, syncs.get account = some info ∧
      info.status = .query ∧ task.Suits account info := by
  obtain ⟨front, back, rfl⟩ := List.append_of_mem hmem
  obtain ⟨info, hget, hquery, hsuits, -⟩ := (h.perm List.perm_middle).entry account hclaims
  exact ⟨info, hget, hquery, hsuits⟩

-- Without a query there is no work.
theorem OneEach.idle (h : OneEach syncs works)
    (hidle : ∀ info, syncs.get account = some info → info.status ≠ .query) :
    works.filter (SyncTask.claims account) = [] := by
  have hclaimed := h account
  unfold Claimed at hclaimed
  split at hclaimed
  · exact hclaimed
  · rename_i info hget
    rwa [if_neg (hidle info hget)] at hclaimed

-- What happens to one account, and to its works, is nothing to the others.
theorem OneEach.change (h : OneEach syncs works) (account : Account)
    (hget : ∀ other, other ≠ account → syncs'.get other = syncs.get other)
    {others : List SyncTask} (hworks : ∀ other, other ≠ account →
      others.filter (SyncTask.claims other) = works.filter (SyncTask.claims other))
    (haccount : Claimed account (syncs'.get account) (others.filter (SyncTask.claims account))) :
    OneEach syncs' others := by
  intro other
  by_cases hother : other = account
  · exact hother ▸ haccount
  · rw [hget other hother, hworks other hother]
    exact h other

theorem filter_claims_cons (htask : task.claims account = false) :
    (task :: works).filter (SyncTask.claims account) = works.filter (SyncTask.claims account) :=
  List.filter_cons_of_neg (by rw [htask]; exact Bool.false_ne_true)

theorem filter_claims_append (hmore : ∀ task ∈ more, task.claims account = false) :
    (more ++ works).filter (SyncTask.claims account) = works.filter (SyncTask.claims account) := by
  rw [List.filter_append, List.filter_eq_nil_iff.mpr fun task htask => by simp [hmore task htask],
    List.nil_append]

-- Works that are nobody's come and go.
theorem OneEach.neutral (h : OneEach syncs (task :: works))
    (htask : ∀ account, task.claims account = false)
    (hmore : ∀ task ∈ more, ∀ account, task.claims account = false) :
    OneEach syncs (more ++ works) := by
  intro account
  rw [filter_claims_append fun other hother => hmore other hother account]
  have hclaimed := h account
  rwa [List.filter_cons_of_neg (by rw [htask]; exact Bool.false_ne_true)] at hclaimed

end OneEach

-- The number of a query is held once as long as it is in the table. Entries that nothing has been
-- found for yet are counted before they are missed.
structure SyncSettled (stat : SyncStat) (syncs : Table Account SyncInfo)
    (queries : Table UInt64 UInt32) (works : List SyncTask) : Prop where
  one : OneEach syncs works
  numbered : ∀ queryId, works.countP (SyncTask.holds queryId) =
    if queries.contains queryId = true then 1 else 0
  counted : stat.miss + syncs.count (fun _ info => info.first = true) ≤ stat.total
  given : ∀ block, .processBlock block ∈ works → block ≠ none

abbrev Syncer.Settles (s : Syncer) (works : List SyncTask) : Prop :=
  SyncSettled s.stat s.syncs s.queries works

section Steps

variable {env : Env} {view : SyncView} {s : Syncer} {works : List SyncTask} {task : SyncTask}

theorem SyncSettled.perm (h : s.Settles works) {others : List SyncTask} (hperm : works.Perm others) :
    s.Settles others where
  one := h.one.perm hperm
  numbered queryId := (hperm.countP_eq _).symm.trans (h.numbered queryId)
  counted := h.counted
  given block hmem := h.given block (hperm.mem_iff.mpr hmem)

theorem given_more {more : List SyncTask} (h : s.Settles works)
    (hmore : ∀ block, .processBlock block ∈ more → block ≠ none) :
    ∀ block, .processBlock block ∈ more ++ works → block ≠ none := by
  intro block hmem
  rcases List.mem_append.mp hmem with hmem | hmem
  · exact hmore block hmem
  · exact h.given block hmem

theorem given_append {more : List SyncTask} (h : s.Settles (task :: works))
    (hmore : ∀ block, .processBlock block ∈ more → block ≠ none) :
    ∀ block, .processBlock block ∈ more ++ works → block ≠ none := by
  intro block hmem
  rcases List.mem_append.mp hmem with hmem | hmem
  · exact hmore block hmem
  · exact h.given block (List.mem_cons_of_mem _ hmem)

-- Works that hold no number.
theorem numbered_more {more : List SyncTask} (h : s.Settles works)
    (hmore : ∀ task ∈ more, ∀ queryId, task.holds queryId = false) (queryId : UInt64) :
    (more ++ works).countP (SyncTask.holds queryId) =
      if s.queries.contains queryId = true then 1 else 0 := by
  have hnone : more.countP (SyncTask.holds queryId) = 0 :=
    List.countP_eq_zero.mpr fun other hother => by simp [hmore other hother queryId]
  rw [List.countP_append, hnone, Nat.zero_add, h.numbered]

theorem numbered_append {more : List SyncTask} (h : s.Settles (task :: works))
    (htask : ∀ queryId, task.holds queryId = false)
    (hmore : ∀ task ∈ more, ∀ queryId, task.holds queryId = false) (queryId : UInt64) :
    (more ++ works).countP (SyncTask.holds queryId) =
      if s.queries.contains queryId = true then 1 else 0 := by
  have hnumbered := numbered_more h hmore queryId
  rwa [List.countP_append, List.countP_cons_of_neg (by rw [htask]; exact Bool.false_ne_true),
    ← List.countP_append] at hnumbered

theorem SyncSettled.neutral (h : s.Settles (task :: works)) {more : List SyncTask}
    (htask : ∀ account, task.claims account = false) (hholds : ∀ queryId, task.holds queryId = false)
    (hmore : ∀ task ∈ more, (∀ account, task.claims account = false) ∧
      (∀ queryId, task.holds queryId = false) ∧ ∀ block, task ≠ .processBlock block) :
    s.Settles (more ++ works) where
  one := h.one.neutral htask fun other hother => (hmore other hother).1
  numbered := numbered_append h hholds fun other hother => (hmore other hother).2.1
  counted := h.counted
  given := given_append h fun block hmem => absurd rfl ((hmore _ hmem).2.2 block)

theorem SyncSettled.begin {more : List SyncTask} (h : s.Settles works)
    (hmore : ∀ task ∈ more, (∀ account, task.claims account = false) ∧
      (∀ queryId, task.holds queryId = false) ∧ ∀ block, task ≠ .processBlock block) :
    s.Settles (more ++ works) where
  one account := by
    rw [filter_claims_append fun task htask => (hmore task htask).1 account]
    exact h.one account
  numbered := numbered_more h fun task htask => (hmore task htask).2.1
  counted := h.counted
  given := given_more h fun block hmem => absurd rfl ((hmore _ hmem).2.2 block)

theorem SyncSettled.add {account : Account} {height : UInt64} {previous : BlockHash} {stat : Bool}
    {batchId : UInt32} (h : s.Settles (.add account height previous stat batchId :: works)) :
    (s.add account height previous stat batchId).1.Settles
      ((s.add account height previous stat batchId).2 ++ works) := by
  unfold Syncer.add
  dsimp only
  split
  · exact h.neutral (fun _ => rfl) (fun _ => rfl) (by simp)
  · rename_i hget
    have hidle : works.filter (SyncTask.claims account) = [] :=
      (filter_claims_cons rfl).symm.trans (h.one.idle fun info hinfo => by rw [hget] at hinfo; cases hinfo)
    refine ⟨h.one.change account ?_ ?_ ?_, ?_, ?_, ?_⟩
    · intro other hother
      rw [Table.get_put, if_neg hother]
    · intro other hother
      have hne : account ≠ other := Ne.symm hother
      rw [List.singleton_append, filter_claims_cons (by simp [SyncTask.claims, hne]),
        filter_claims_cons rfl]
    · rw [Table.get_put, if_pos rfl, List.singleton_append,
        List.filter_cons_of_pos (by simp [SyncTask.claims]), hidle]
      exact .query rfl ⟨rfl, rfl, rfl⟩
    · exact @numbered_append s works _ [_] h (fun _ => rfl) (by simp [SyncTask.holds])
    · have hcounted := h.counted
      rw [Table.count_put_new _ _ hget]
      cases stat with
      | true =>
          rw [if_pos rfl, if_pos rfl]
          dsimp only
          omega
      | false =>
          rw [if_neg Bool.false_ne_true, if_neg Bool.false_ne_true]
          exact hcounted
    · exact @given_append s works _ [_] h (by simp)

theorem freeQueryId_fresh {queryId : UInt64} (h : s.freeQueryId = some queryId) :
    s.queries.contains queryId = false := by
  simpa using List.find?_some h

-- The number that a query gets is not held yet.
theorem SyncSettled.addQuery {batchId : UInt32} {ask : UInt64 → SyncQuery}
    (h : s.Settles (task :: works)) (hholds : ∀ queryId, task.holds queryId = false)
    (hfree : s.freeQueryId.isSome) (hask : ∀ queryId, (ask queryId).queryId = queryId)
    (hone : ∀ queryId, OneEach s.syncs (.ask (ask queryId) :: works)) :
    (s.addQuery batchId ask).1.Settles ((s.addQuery batchId ask).2 ++ works) := by
  unfold Syncer.addQuery
  cases hid : s.freeQueryId with
  | none => rw [hid] at hfree; cases hfree
  | some queryId =>
      have hfresh := freeQueryId_fresh hid
      refine ⟨hone queryId, fun other => ?_, h.counted, @given_append s works _ [_] h (by simp)⟩
      have hnumbered : works.countP (SyncTask.holds other) = _ :=
        @numbered_append s works _ [] h hholds (by simp) other
      change (SyncTask.ask (ask queryId) :: works).countP (SyncTask.holds other) =
        if ((s.queries.put queryId batchId).get other).isSome = true then 1 else 0
      rw [List.countP_cons, hnumbered, Table.get_put]
      by_cases hother : other = queryId
      · have hholds : SyncTask.holds other (.ask (ask queryId)) = true :=
          decide_eq_true ((hask queryId).trans hother.symm)
        rw [hholds, if_pos rfl, if_pos hother, hother, hfresh]
        rfl
      · have hholds : SyncTask.holds other (.ask (ask queryId)) = false :=
          decide_eq_false fun heq => hother (heq.symm.trans (hask queryId))
        rw [hholds, if_neg Bool.false_ne_true, if_neg hother]
        rfl

theorem SyncSettled.blockQuery {account : Account} {info : SyncInfo} {batchId : UInt32}
    (h : s.Settles (.blockQuery account info batchId :: works)) (hfree : s.freeQueryId.isSome) :
    (s.runTask env view (.blockQuery account info batchId)).1.Settles
      ((s.runTask env view (.blockQuery account info batchId)).2 ++ works) := by
  refine h.addQuery (fun _ => rfl) hfree (fun _ => rfl) fun queryId => ?_
  obtain ⟨entry, hget, hquery, ⟨hheight, hprevious, -⟩, hrest⟩ := h.one.entry account (decide_eq_true rfl)
  refine h.one.change account (fun _ _ => rfl) (fun other hother => ?_) ?_
  · have hne : account ≠ other := Ne.symm hother
    rw [filter_claims_cons (by simp [SyncTask.claims, hne]),
      filter_claims_cons (by simp [SyncTask.claims, hne])]
  · rw [hget, List.filter_cons_of_pos (by simp [SyncTask.claims]), hrest]
    exact .query hquery (by rw [SyncTask.Suits, hheight, hprevious])

theorem SyncSettled.blockQueryByHash {hash : BlockHash} {batchId : UInt32}
    (h : s.Settles (.blockQueryByHash hash batchId :: works)) (hfree : s.freeQueryId.isSome) :
    (s.runTask env view (.blockQueryByHash hash batchId)).1.Settles
      ((s.runTask env view (.blockQueryByHash hash batchId)).2 ++ works) :=
  h.addQuery (fun _ => rfl) hfree (fun _ => rfl) fun queryId =>
    @OneEach.neutral _ _ [_] _ h.one (fun _ => rfl) (by simp [SyncTask.claims])

-- The work of an entry ends with the entry.
theorem SyncSettled.remove {account : Account} {stat : SyncStat} (h : s.Settles (task :: works))
    (more : List SyncTask) (hclaims : ∀ other, task.claims other = decide (account = other))
    (hholds : ∀ queryId, task.holds queryId = false)
    (hmore : ∀ task ∈ more, ∃ block, task = .processBlock block ∧ block ≠ none)
    (hstat : ∀ info, s.syncs.get account = some info →
      stat.miss ≤ s.stat.miss + (if info.first = true then 1 else 0) ∧
        s.stat.total ≤ stat.total) :
    SyncSettled stat (s.syncs.del account) s.queries (more ++ works) := by
  obtain ⟨info, hget, hquery, -, hrest⟩ := h.one.entry account
    ((hclaims account).trans (decide_eq_true rfl))
  have hfree : ∀ task ∈ more, ∀ other, task.claims other = false := fun task htask other => by
    obtain ⟨block, rfl, -⟩ := hmore task htask
    rfl
  refine ⟨h.one.change account ?_ ?_ ?_, numbered_append h hholds ?_, ?_, given_append h ?_⟩
  · intro other hother
    rw [Table.get_del, if_neg hother]
  · intro other hother
    rw [filter_claims_append fun task htask => hfree task htask other,
      filter_claims_cons ((hclaims other).trans (decide_eq_false (Ne.symm hother)))]
  · rw [Table.get_del, if_pos rfl, filter_claims_append fun task htask => hfree task htask account]
    exact hrest
  · intro task htask queryId
    obtain ⟨block, rfl, -⟩ := hmore task htask
    rfl
  · have hcounted := h.counted
    have hdel : (s.syncs.del account).count (fun _ info => info.first = true) +
        (if info.first = true then 1 else 0) = s.syncs.count fun _ info => info.first = true :=
      Table.sum_del s.syncs _ hget
    obtain ⟨hmiss, htotal⟩ := hstat info hget
    omega
  · intro block hmem
    obtain ⟨other, heq, hsome⟩ := hmore _ hmem
    cases heq
    exact hsome

theorem SyncSettled.queryCallback {account : Account} {status : QueryStatus} {block : Option Block}
    (h : s.Settles (.queryCallback account status block :: works)) :
    (s.queryCallback env account status block).1.Settles
      ((s.queryCallback env account status block).2 ++ works) := by
  obtain ⟨info, hget, hquery, ⟨hsome, -⟩, hrest⟩ := h.one.entry account
    (by simp [SyncTask.claims])
  have hgiven (hstatus : status = .success ∨ status = .fork) : block ≠ none := fun hnone => by
    obtain ⟨b, hb, -⟩ := hsome hstatus
    rw [hnone] at hb
    cases hb
  have hsame (other : SyncInfo) (_ : s.syncs.get account = some other) :
      s.stat.miss ≤ s.stat.miss + (if other.first = true then 1 else 0) ∧
        s.stat.total ≤ s.stat.total := ⟨by omega, Nat.le_refl _⟩
  unfold Syncer.queryCallback
  rw [hget]
  dsimp only
  rw [if_neg (not_not_intro hquery)]
  cases status with
  | success =>
      refine ⟨h.one.change account ?_ ?_ ?_, ?_, ?_, ?_⟩
      · intro other hother
        rw [Table.get_put, if_neg hother]
      · intro other hother
        have hne : account ≠ other := Ne.symm hother
        rw [List.singleton_append, filter_claims_cons rfl,
          filter_claims_cons (by simp [SyncTask.claims, hne])]
      · rw [Table.get_put, if_pos rfl, List.singleton_append, filter_claims_cons rfl, hrest]
        exact .process (by simp)
      · exact @numbered_append s works _ [_] h (fun _ => rfl) (by simp [SyncTask.holds])
      · have hcounted := h.counted
        have hput := Table.count_put (p := fun _ info => info.first = true) s.syncs
          { info with first := false, status := .process, current := block.elim 0 env.hash } hget
        dsimp only at hput ⊢
        simp only [Bool.false_eq_true, if_false] at hput
        omega
      · refine @given_append s works _ [_] h fun other hmem => ?_
        cases List.mem_singleton.mp hmem
        exact hgiven (.inl rfl)
  | miss =>
      refine h.remove [] (fun _ => rfl) (fun _ => rfl) (by simp) fun other hother => ?_
      rw [hget] at hother
      cases hother
      by_cases hfirst : info.first = true
      · rw [if_pos hfirst, if_pos hfirst]
        exact ⟨Nat.le_refl _, Nat.le_refl _⟩
      · rw [if_neg hfirst, if_neg hfirst]
        exact ⟨Nat.le_refl _, Nat.le_refl _⟩
  | fork =>
      refine h.remove [_] (fun _ => rfl) (fun _ => rfl) (fun task htask => ?_) hsame
      exact ⟨block, List.mem_singleton.mp htask, hgiven (.inr rfl)⟩
  | invalid => exact h.remove [] (fun _ => rfl) (fun _ => rfl) (by simp) hsame
  | pruned => exact h.remove [] (fun _ => rfl) (fun _ => rfl) (by simp) hsame

theorem SyncSettled.erase {account : Account} (h : s.Settles (.erase account :: works)) :
    ({ s with syncs := s.syncs.del account } : Syncer).Settles works :=
  h.remove [] (fun _ => rfl) (fun _ => rfl) (by simp) fun _ _ =>
    ⟨Nat.le_add_right _ _, Nat.le_refl _⟩

theorem SyncSettled.eraseQuery {queryId : UInt64} (h : s.Settles (.eraseQuery queryId :: works)) :
    ({ s with queries := s.queries.del queryId } : Syncer).Settles works where
  one := @OneEach.neutral _ _ [] _ h.one (fun _ => rfl) (by simp)
  numbered other := by
    have hnumbered := h.numbered other
    rw [List.countP_cons] at hnumbered
    change _ = if ((s.queries.del queryId).get other).isSome = true then 1 else 0
    rw [Table.get_del]
    by_cases hother : other = queryId
    · rw [if_pos hother]
      rw [hother, SyncTask.holds, decide_eq_true rfl, if_pos rfl] at hnumbered
      rw [hother]
      split at hnumbered
      · exact Nat.succ.inj hnumbered
      · cases hnumbered
    · have hholds : SyncTask.holds other (.eraseQuery queryId) = false :=
        decide_eq_false (Ne.symm hother)
      rw [hholds, if_neg Bool.false_ne_true] at hnumbered
      rw [if_neg hother]
      exact hnumbered
  counted := h.counted
  given := @given_append s works _ [] h (by simp)

theorem syncAccount_add (store : Store) (account : Account) (batchId : UInt32) :
    ∃ height previous, Syncer.syncAccount store account batchId =
      .add account height previous false batchId := by
  unfold Syncer.syncAccount
  split
  · exact ⟨_, _, rfl⟩
  · split
    · exact ⟨_, _, rfl⟩
    · exact ⟨_, _, rfl⟩

-- What is done for the accounts that a block concerns.
theorem mem_syncRelated {block : Block} {batchId : UInt32}
    (h : task ∈ Syncer.syncRelated view block batchId) :
    ∃ account height previous, task = .add account height previous false batchId := by
  unfold Syncer.syncRelated at h
  split at h
  · cases h
  · split at h
    · cases h
    · have hadd (store : Store) (account : Account)
          (heq : task = Syncer.syncAccount store account batchId) :
          ∃ account height previous, task = .add account height previous false batchId := by
        obtain ⟨height, previous, hsync⟩ := syncAccount_add store account batchId
        exact ⟨account, height, previous, heq.trans hsync⟩
      rcases List.mem_append.mp h with h | h
      · split at h
        · exact hadd _ _ (List.mem_singleton.mp h)
        · cases h
      · split at h
        · split at h
          · cases h
          · exact hadd _ _ (List.mem_singleton.mp h)
        · cases h

theorem SyncSettled.adds {more : List SyncTask} (h : s.Settles (task :: works))
    (htask : ∀ account, task.claims account = false) (hholds : ∀ queryId, task.holds queryId = false)
    (hmore : ∀ task ∈ more, ∃ account height previous stat batchId,
      task = .add account height previous stat batchId) : s.Settles (more ++ works) :=
  h.neutral htask hholds fun task hmem => by
    obtain ⟨account, height, previous, stat, batchId, rfl⟩ := hmore task hmem
    exact ⟨fun _ => rfl, fun _ => rfl, fun _ heq => by cases heq⟩

-- What one task does, with what it leaves to be done.
theorem SyncSettled.runTask (h : s.Settles (s.live.map .ask ++ task :: works))
    (hfree : s.freeQueryId.isSome) : (s.runTask env view task).1.Settles
      ((s.runTask env view task).1.live.map .ask ++ ((s.runTask env view task).2 ++ works)) := by
  have hfront : s.Settles (task :: (s.live.map .ask ++ works)) := h.perm List.perm_middle
  have hback {next : Syncer × List SyncTask} (hlive : next.1.live = s.live)
      (h : next.1.Settles (next.2 ++ (s.live.map .ask ++ works))) :
      next.1.Settles (next.1.live.map .ask ++ (next.2 ++ works)) := by
    rw [hlive]
    refine h.perm ?_
    rw [← List.append_assoc, ← List.append_assoc]
    exact List.perm_append_comm.append_right works
  have haddQuery (batchId : UInt32) (ask : UInt64 → SyncQuery) :
      (s.addQuery batchId ask).1.live = s.live := by
    unfold Syncer.addQuery
    split <;> rfl
  cases task with
  | add account height previous stat batchId =>
      refine hback ?_ hfront.add
      change (s.add _ _ _ _ _).1.live = _
      unfold Syncer.add
      dsimp only
      split <;> rfl
  | blockQuery account info batchId => exact hback (haddQuery _ _) (hfront.blockQuery hfree)
  | blockQueryByHash hash batchId => exact hback (haddQuery _ _) (hfront.blockQueryByHash hfree)
  | ask query => exact hfront
  | queryCallback account status block =>
      refine hback ?_ hfront.queryCallback
      change (s.queryCallback _ _ _ _).1.live = _
      unfold Syncer.queryCallback
      split
      · rfl
      · split
        · rfl
        · cases status <;> rfl
  | processBlock block =>
      exact hback rfl (hfront.neutral (fun _ => rfl) (fun _ => rfl) fun _ hmem => by cases hmem)
  | syncRelated block batchId =>
      refine hback rfl (hfront.adds (fun _ => rfl) (fun _ => rfl) fun task htask => ?_)
      obtain ⟨account, height, previous, heq⟩ := mem_syncRelated htask
      exact ⟨account, height, previous, false, batchId, heq⟩
  | syncFound queryId account =>
      cases view with
      | none =>
          exact hback rfl (hfront.neutral (fun _ => rfl) (fun _ => rfl) fun _ hmem => by cases hmem)
      | some view =>
          refine hback rfl (hfront.adds (fun _ => rfl) (fun _ => rfl) fun task htask => ?_)
          obtain ⟨height, previous, hsync⟩ := syncAccount_add view.1 account (s.batchId queryId)
          exact ⟨account, height, previous, false, _, (List.mem_singleton.mp htask).trans hsync⟩
  | erase account => exact hback rfl hfront.erase
  | eraseQuery queryId => exact hback rfl hfront.eraseQuery

-- An entry whose block was processed asks again.
theorem SyncSettled.requery {account : Account} {info : SyncInfo} (h : s.Settles works)
    (hget : s.syncs.get account = some info) (hprocess : info.status = .process) (info' : SyncInfo)
    (hquery : info'.status = .query) (hfirst : info'.first = info.first) (more : List SyncTask)
    (hmore : ∀ task ∈ more, (∀ account, task.claims account = false) ∧
      (∀ queryId, task.holds queryId = false) ∧ ∀ block, task ≠ .processBlock block) :
    SyncSettled s.stat (s.syncs.put account info') s.queries
      (.blockQuery account info' info'.batchId :: more ++ works) := by
  have hidle : works.filter (SyncTask.claims account) = [] := h.one.idle fun other hother => by
    rw [hget] at hother
    cases hother
    simp [hprocess]
  refine ⟨h.one.change account ?_ ?_ ?_, @numbered_more s works (_ :: more) h ?_, ?_,
    @given_more s works (_ :: more) h ?_⟩
  · intro other hother
    rw [Table.get_put, if_neg hother]
  · intro other hother
    have hne : account ≠ other := Ne.symm hother
    rw [List.cons_append, filter_claims_cons (by simp [SyncTask.claims, hne]),
      filter_claims_append fun task htask => (hmore task htask).1 other]
  · rw [Table.get_put, if_pos rfl, List.cons_append,
      List.filter_cons_of_pos (by simp [SyncTask.claims]),
      filter_claims_append fun task htask => (hmore task htask).1 account, hidle]
    exact .query hquery ⟨rfl, rfl, rfl⟩
  · exact List.forall_mem_cons.mpr ⟨fun _ => rfl, fun task htask => (hmore task htask).2.1⟩
  · have hput := Table.count_put (p := fun _ info => info.first = true) s.syncs info' hget
    have hcounted := h.counted
    rw [hfirst] at hput
    omega
  · intro block hmem
    rcases List.mem_cons.mp hmem with heq | hmem
    · cases heq
    · exact absurd rfl ((hmore _ hmem).2.2 block)

theorem SyncSettled.forget {account : Account} {info : SyncInfo} (h : s.Settles works)
    (hget : s.syncs.get account = some info) (hprocess : info.status = .process)
    (more : List SyncTask) (hmore : ∀ task ∈ more, (∀ account, task.claims account = false) ∧
      (∀ queryId, task.holds queryId = false) ∧ ∀ block, task ≠ .processBlock block) :
    SyncSettled s.stat (s.syncs.del account) s.queries (more ++ works) := by
  have hidle : works.filter (SyncTask.claims account) = [] := h.one.idle fun other hother => by
    rw [hget] at hother
    cases hother
    simp [hprocess]
  refine ⟨h.one.change account ?_ ?_ ?_, numbered_more h fun task htask => (hmore task htask).2.1, ?_,
    given_more h fun block hmem => absurd rfl ((hmore _ hmem).2.2 block)⟩
  · intro other hother
    rw [Table.get_del, if_neg hother]
  · intro other hother
    rw [filter_claims_append fun task htask => (hmore task htask).1 other]
  · rw [Table.get_del, if_pos rfl,
      filter_claims_append fun task htask => (hmore task htask).1 account]
    exact hidle
  · have hdel : (s.syncs.del account).count (fun _ info => info.first = true) +
        (if info.first = true then 1 else 0) = s.syncs.count fun _ info => info.first = true :=
      Table.sum_del s.syncs _ hget
    have hcounted := h.counted
    omega

-- A notification of the block processor.
theorem SyncSettled.processorCallback (h : s.Settles works) (operation : BlockOperation)
    (code : Option ErrorCode) (block : Block) :
    (s.processorCallback env operation code block).1.Settles
      ((s.processorCallback env operation code block).2 ++ works) := by
  unfold Syncer.processorCallback
  by_cases hoperation : operation ≠ .append ∧ operation ≠ .drop
  · rw [if_pos hoperation]
    exact h
  rw [if_neg hoperation]
  cases hget : s.syncs.get block.account with
  | none => exact h
  | some info =>
      dsimp only
      by_cases hprocess : info.status = .process
      · rw [if_neg (not_not_intro hprocess)]
        split_ifs
        · exact h
        · exact h.requery hget hprocess { info with status := .query, current := 0 } rfl rfl []
            (by simp)
        · refine h.requery hget hprocess { info with
            status := .query
            current := 0
            height := UInt64.ofNat (block.height + 1)
            previous := env.hash block } rfl rfl [.syncRelated block info.batchId] ?_
          simp [SyncTask.claims, SyncTask.holds]
        · exact h.forget hget hprocess [_] (by simp [SyncTask.claims, SyncTask.holds])
        · exact h.forget hget hprocess [] (by simp)
      · rw [if_pos hprocess]
        exact h

-- What an acknowledgement brings is the block that the query asks for.
theorem acknowledged_block {query : SyncQuery} {account : Account} {height : UInt64}
    {previous : BlockHash} {ack : QueryAck} {status : QueryStatus}
    (htarget : query.target = Syncer.targetOf account height previous)
    (hack : query.Acknowledges env ack) (hstatus : ack.status = .reply status) :
    (status = .success ∨ status = .fork → ∃ b, ack.block = some b ∧ b.account = account) ∧
      (status = .success → ∀ b, ack.block = some b → b.height = height.toNat ∧
        (height ≠ 0 → previous ≠ 0 → b.previous = previous)) := by
  unfold SyncQuery.Acknowledges at hack
  rw [hstatus] at hack
  obtain ⟨extension, message, hchecked, hextension, hblock, hmatches⟩ := hack
  have hsome (hwith : status = .success ∨ status = .fork) : ∃ b, ack.block = some b := by
    obtain ⟨b, hb, -⟩ := hchecked.block_some ⟨rfl, by rwa [hextension]⟩
    exact ⟨b, hblock ▸ hb⟩
  have hchecks (b : Block) (hb : ack.block = some b) (hwith : status = .success ∨ status = .fork) :
      b.account = account ∧ (status = .success → b.height = height.toNat ∧
        (height ≠ 0 → previous ≠ 0 → b.previous = previous)) := by
    have hcheck := hchecked.check
    unfold QueryMessage.check_ at hcheck
    rw [hblock, hb] at hcheck
    dsimp only at hcheck
    rw [htarget] at hmatches
    unfold Syncer.targetOf at hmatches
    split at hmatches
    · obtain ⟨hby, haccount, hheight, -⟩ : QueryBy.height = QueryMessage.queryBy extension ∧
          account = message.account ∧ height = message.height ∧ 0 = message.hash := by
        simpa [BlockQuery.Matches, BlockQuery.ofTarget] using hmatches
      rw [← hby, ← haccount, ← hheight] at hcheck
      simp only [Except.bind_eq_ok, returnIf_eq_ok, ne_eq, not_not, exists_const] at hcheck
      obtain ⟨-, hsame, hlevel⟩ := hcheck
      refine ⟨hsame, fun _ => ⟨hlevel, fun hnonzero hprevious => ?_⟩⟩
      exact absurd ‹_› (not_or.mpr ⟨hnonzero, hprevious⟩)
    · obtain ⟨hby, haccount, hheight, hhash⟩ : QueryBy.previous = QueryMessage.queryBy extension ∧
          account = message.account ∧ height = message.height ∧ previous = message.hash := by
        simpa [BlockQuery.Matches, BlockQuery.ofTarget] using hmatches
      rw [← hby, ← haccount, ← hheight, ← hhash, hextension] at hcheck
      rcases hwith with rfl | rfl
      · simp only [Except.bind_eq_ok, returnIf_eq_ok, ne_eq, not_not, exists_const] at hcheck
        exact ⟨hcheck.1, fun _ => ⟨hcheck.2.1, fun _ _ => hcheck.2.2⟩⟩
      · simp only [Except.bind_eq_ok, returnIf_eq_ok, ne_eq, not_not, exists_const] at hcheck
        exact ⟨hcheck.1, fun hfork => by cases hfork⟩
  refine ⟨fun hwith => ?_, fun hsuccess b hb => (hchecks b hb (.inl hsuccess)).2 hsuccess⟩
  obtain ⟨b, hb⟩ := hsome hwith
  exact ⟨b, hb, (hchecks b hb hwith).1⟩

theorem SyncSettled.askAgain {query query' : SyncQuery} (h : s.Settles (.ask query :: works))
    (htarget : query'.target = query.target) (haccount : query'.account = query.account)
    (hqueryId : query'.queryId = query.queryId) : s.Settles (.ask query' :: works) := by
  have hclaims (account : Account) :
      SyncTask.claims account (.ask query') = SyncTask.claims account (.ask query) := by
    rw [SyncTask.claims, SyncTask.claims, haccount]
  have hholds (queryId : UInt64) :
      SyncTask.holds queryId (.ask query') = SyncTask.holds queryId (.ask query) := by
    rw [SyncTask.holds, SyncTask.holds, hqueryId]
  refine ⟨fun account => ?_, fun queryId => ?_, h.counted, fun block hmem => ?_⟩
  · by_cases hmine : SyncTask.claims account (.ask query) = true
    · obtain ⟨info, hget, hquery, hsuits, hrest⟩ := h.one.entry account hmine
      rw [hget, List.filter_cons_of_pos ((hclaims account).trans hmine), hrest]
      exact .query hquery (htarget.trans hsuits)
    · rw [Bool.not_eq_true] at hmine
      have hclaimed := h.one account
      rw [filter_claims_cons hmine] at hclaimed
      rwa [filter_claims_cons ((hclaims account).trans hmine)]
  · rw [← h.numbered, List.countP_cons, List.countP_cons, hholds]
  · rcases List.mem_cons.mp hmem with heq | hmem
    · cases heq
    · exact h.given block (List.mem_cons_of_mem _ hmem)

-- A query that is answered leaves its number to a thread.
theorem SyncSettled.answered {query : SyncQuery} {tasks : List SyncTask}
    (h : s.Settles (.ask query :: works))
    (hone : OneEach s.syncs (tasks ++ .eraseQuery query.queryId :: works))
    (htasks : ∀ task ∈ tasks, (∀ queryId, task.holds queryId = false) ∧
      ∀ block, task ≠ .processBlock block) :
    s.Settles (tasks ++ .eraseQuery query.queryId :: works) := by
  refine ⟨hone, fun queryId => ?_, h.counted, fun block hmem => ?_⟩
  · have hnone : tasks.countP (SyncTask.holds queryId) = 0 :=
      List.countP_eq_zero.mpr fun task htask => by simp [(htasks task htask).1 queryId]
    rw [← h.numbered, List.countP_append, hnone, Nat.zero_add, List.countP_cons, List.countP_cons]
    rfl
  · rcases List.mem_append.mp hmem with hmem | hmem
    · exact absurd rfl ((htasks _ hmem).2 block)
    · rcases List.mem_cons.mp hmem with heq | hmem
      · cases heq
      · exact h.given block (List.mem_cons_of_mem _ hmem)

theorem answer_inl {query query' : SyncQuery} {acks : List QueryAck}
    (h : query.answer acks = .inl query') : query'.target = query.target ∧
      query'.account = query.account ∧ query'.queryId = query.queryId := by
  unfold SyncQuery.answer SyncQuery.answerByAccount SyncQuery.answerByHash at h
  repeat' split at h
  all_goals cases h
  all_goals exact ⟨rfl, rfl, rfl⟩

-- What is done with the answer to a query of an account's.
inductive AccountAnswer (account : Account) (acks : List QueryAck) : List SyncTask → Prop where
  | callback {ack : QueryAck} {status : QueryStatus} (hacks : acks = [ack])
      (hstatus : ack.status = .reply status) :
      AccountAnswer account acks [.queryCallback account status ack.block]
  | erase : AccountAnswer account acks [.erase account]

theorem answer_account {query : SyncQuery} {account : Account} {acks : List QueryAck}
    {tasks : List SyncTask} (haccount : query.account = some account)
    (h : query.answer acks = .inr tasks) :
    ∃ front, tasks = front ++ [.eraseQuery query.queryId] ∧
      AccountAnswer account acks front := by
  unfold SyncQuery.answer at h
  rw [haccount] at h
  dsimp only at h
  rcases acks with _ | ⟨ack, _ | ⟨other, rest⟩⟩
  · cases h
    exact ⟨[_], rfl, .erase⟩
  · unfold SyncQuery.answerByAccount at h
    dsimp only at h
    split at h
    · cases h
      exact ⟨[_], rfl, .callback rfl ‹_›⟩
    · cases h
      exact ⟨[_], rfl, .callback rfl ‹_›⟩
    · split at h
      · cases h
        exact ⟨[_], rfl, .callback rfl ‹_›⟩
      · cases h
    · cases h
    · cases h
    · cases h
      exact ⟨[_], rfl, .erase⟩
    · cases h
      exact ⟨[_], rfl, .erase⟩
  · cases h
    exact ⟨[_], rfl, .erase⟩

theorem answer_hash {query : SyncQuery} {acks : List QueryAck} {tasks : List SyncTask}
    (haccount : query.account = none) (h : query.answer acks = .inr tasks) :
    tasks = [.eraseQuery query.queryId] ∨
      ∃ account, tasks = [.syncFound query.queryId account, .eraseQuery query.queryId] := by
  unfold SyncQuery.answer at h
  rw [haccount] at h
  dsimp only at h
  rcases acks with _ | ⟨ack, _ | ⟨other, rest⟩⟩
  · cases h
    exact .inl rfl
  · unfold SyncQuery.answerByHash at h
    dsimp only at h
    split at h
    · cases h
      exact .inr ⟨_, rfl⟩
    · split at h
      · cases h
        exact .inl rfl
      · cases h
    · cases h
    · cases h
    · cases h
    · cases h
      exact .inl rfl
    · cases h
      exact .inl rfl
  · cases h
    exact .inl rfl

theorem SyncSettled.answer {query : SyncQuery} {acks : List QueryAck} {tasks : List SyncTask}
    (h : s.Settles (.ask query :: works)) (hacks : ∀ ack ∈ acks, query.Acknowledges env ack)
    (hanswer : query.answer acks = .inr tasks) : s.Settles (tasks ++ works) := by
  cases haccount : query.account with
  | none =>
      have hnobody (account : Account) : SyncTask.claims account (.ask query) = false := by
        simp [SyncTask.claims, haccount]
      rcases answer_hash haccount hanswer with rfl | ⟨account, rfl⟩
      · refine @SyncSettled.answered s works query [] h ?_ (by simp)
        exact @OneEach.neutral _ _ [_] _ h.one hnobody (by simp [SyncTask.claims])
      · refine @SyncSettled.answered s works query [_] h ?_ (by simp [SyncTask.holds])
        exact @OneEach.neutral _ _ [_, _] _ h.one hnobody (by simp [SyncTask.claims])
  | some account =>
      obtain ⟨front, rfl, hfront⟩ := answer_account haccount hanswer
      have hmine : SyncTask.claims account (.ask query) = true := decide_eq_true haccount
      obtain ⟨info, hget, hquery, hsuits, hrest⟩ := h.one.entry account hmine
      have hone {task : SyncTask} (hclaims : ∀ other, task.claims other = decide (account = other))
          (hsuits : task.Suits account info) :
          OneEach s.syncs (task :: .eraseQuery query.queryId :: works) := by
        refine h.one.change account (fun _ _ => rfl) (fun other hother => ?_) ?_
        · have hne : account ≠ other := Ne.symm hother
          rw [filter_claims_cons ((hclaims other).trans (decide_eq_false hne)),
            filter_claims_cons rfl, filter_claims_cons (by simp [SyncTask.claims, haccount, hne])]
        · rw [hget, List.filter_cons_of_pos ((hclaims account).trans (decide_eq_true rfl)),
            filter_claims_cons rfl, hrest]
          exact .query hquery hsuits
      rw [List.append_assoc]
      cases hfront with
      | @callback ack status hlist hstatus =>
          refine @SyncSettled.answered s works query [_] h (hone (fun _ => rfl) ?_)
            (by simp [SyncTask.holds])
          exact acknowledged_block hsuits (hacks ack (hlist ▸ List.mem_cons_self)) hstatus
      | erase =>
          exact @SyncSettled.answered s works query [_] h (hone (fun _ => rfl) trivial)
            (by simp [SyncTask.holds])

-- Forgetting what was counted changes no entry that is asked for.
theorem SyncSettled.resetStat (h : s.Settles works) : s.resetStat.Settles works where
  one account := by
    have hclaimed := h.one account
    change Claimed account ((s.syncs.mapValues _).get account) _
    rw [Table.get_mapValues]
    cases hget : s.syncs.get account with
    | none =>
        rw [hget] at hclaimed
        exact hclaimed
    | some info =>
        rw [hget] at hclaimed
        change if _ then _ else _ at hclaimed
        change if _ then _ else _
        split at hclaimed
        · obtain ⟨task, heq, hsuits⟩ := hclaimed
          rw [if_pos ‹_›]
          refine ⟨task, heq, ?_⟩
          cases task <;> exact hsuits
        · rw [if_neg ‹_›]
          exact hclaimed
  numbered := h.numbered
  counted := by
    have hnone : (s.syncs.mapValues fun info => { info with first := false }).count
        (fun _ info => info.first = true) = 0 :=
      Table.sum_eq_zero _ fun account info hget => by
        rw [Table.get_mapValues] at hget
        obtain ⟨other, -, rfl⟩ := Option.map_eq_some_iff.mp hget
        rfl
    exact Nat.le_of_eq ((Nat.zero_add _).trans hnone)
  given := h.given

end Steps

section Runs

variable {env : Env} {s s' : Syncer} {history : History Syncer SyncAction}

-- A thread that is taken out leaves its tasks to be done.
theorem works_thread {index : Nat} {tasks : List SyncTask} (h : s.threads[index]? = some tasks) :
    s.works.Perm (s.live.map .ask ++ (tasks ++ (s.threads.eraseIdx index).flatten)) := by
  obtain ⟨hlt, hget⟩ := List.getElem?_eq_some_iff.mp h
  refine .append_left _ ?_
  have hperm := (List.getElem_cons_eraseIdx_perm hlt).flatten
  rw [hget] at hperm
  exact hperm.symm

theorem works_query {index : Nat} {query : SyncQuery} (h : s.live[index]? = some query) :
    s.works.Perm (.ask query :: ((s.live.eraseIdx index).map .ask ++ s.threads.flatten)) := by
  obtain ⟨hlt, hget⟩ := List.getElem?_eq_some_iff.mp h
  have hperm := (List.getElem_cons_eraseIdx_perm hlt).map SyncTask.ask
  rw [hget] at hperm
  exact (hperm.symm.append_right _)

theorem perm_front (front back rest : List SyncTask) :
    (front ++ (back ++ rest)).Perm (back ++ (front ++ rest)) := by
  rw [← List.append_assoc, ← List.append_assoc]
  exact List.perm_append_comm.append_right rest

theorem processorCallback_rest (operation : BlockOperation) (code : Option ErrorCode)
    (block : Block) : (s.processorCallback env operation code block).1.live = s.live ∧
      (s.processorCallback env operation code block).1.threads = s.threads := by
  unfold Syncer.processorCallback
  repeat' split
  all_goals exact ⟨rfl, rfl⟩

theorem runTask_threads (view : SyncView) (task : SyncTask) :
    (s.runTask env view task).1.threads = s.threads := by
  have haddQuery (batchId : UInt32) (ask : UInt64 → SyncQuery) :
      (s.addQuery batchId ask).1.threads = s.threads := by
    unfold Syncer.addQuery
    split <;> rfl
  cases task with
  | add account height previous stat batchId =>
      change (s.add account height previous stat batchId).1.threads = _
      unfold Syncer.add
      dsimp only
      split <;> rfl
  | blockQuery account info batchId => exact haddQuery _ _
  | blockQueryByHash hash batchId => exact haddQuery _ _
  | queryCallback account status block =>
      change (s.queryCallback env account status block).1.threads = _
      unfold Syncer.queryCallback
      repeat' split
      all_goals rfl
  | syncFound queryId account => cases view <;> rfl
  | _ => rfl

theorem SyncSettled.take (h : s.Settles s.works) {action : SyncAction} (hfits : s.Fits env action) :
    (s.take env action).Settles (s.take env action).works := by
  cases action with
  | call account height previous stat batchId =>
      refine SyncSettled.perm (@SyncSettled.begin s s.works [.add account height previous stat batchId] h ?_)
        (perm_front _ _ _)
      simp [SyncTask.claims, SyncTask.holds]
  | notify operation code block =>
      obtain ⟨hlive, hthreads⟩ := @processorCallback_rest env s operation code block
      have hnext := @SyncSettled.processorCallback env s s.works h operation code block
      refine SyncSettled.perm hnext ?_
      change List.Perm _ ((s.processorCallback env operation code block).1.live.map .ask ++
        (_ ++ (s.processorCallback env operation code block).1.threads.flatten))
      rw [hlive, hthreads]
      exact perm_front _ _ _
  | answer index acks =>
      obtain ⟨query, hget, hacks⟩ := hfits
      have hquery := h.perm (works_query hget)
      change (s.answerQuery index acks).Settles (s.answerQuery index acks).works
      unfold Syncer.answerQuery
      rw [hget]
      dsimp only
      cases hanswer : query.answer acks with
      | inl query' =>
          obtain ⟨htarget, haccount, hqueryId⟩ := answer_inl hanswer
          exact hquery.askAgain htarget haccount hqueryId
      | inr tasks => exact SyncSettled.perm (hquery.answer hacks hanswer) (perm_front _ _ _)
  | run index view =>
      obtain ⟨task, tasks, hget, hfree⟩ := hfits
      have htask := h.perm (works_thread hget)
      change (s.runThread env index view).Settles (s.runThread env index view).works
      unfold Syncer.runThread
      rw [hget]
      dsimp only
      have hnext := @SyncSettled.runTask env view { s with threads := s.threads.eraseIdx index } _ task
        htask hfree
      refine SyncSettled.perm hnext ?_
      rw [Syncer.works, Syncer.start]
      dsimp only
      rw [runTask_threads, List.flatten_cons, List.append_assoc]
      exact List.Perm.refl _
  | resetStat => exact h.resetStat

-- The work on a batch that no table shows: what will add to it.
def SyncTask.carries (batchId : UInt32) : SyncTask → Prop
  | .add _ _ _ _ other => other = batchId
  | .blockQueryByHash _ other => other = batchId
  | .syncRelated _ other => other = batchId
  | _ => False

-- No thread will add to the batch.
def Syncer.Quiet (s : Syncer) (batchId : UInt32) : Prop :=
  ∀ tasks ∈ s.threads, ∀ task ∈ tasks, ¬task.carries batchId

-- The thread that takes in a block found by its hash gives the number back next.
def Syncer.FoundLast (s : Syncer) : Prop :=
  ∀ tasks ∈ s.threads, ∀ queryId account, .syncFound queryId account ∈ tasks →
    tasks = [.syncFound queryId account, .eraseQuery queryId]

theorem runTask_not_found {view : SyncView} {task : SyncTask} (queryId : UInt64)
    (account : Account) : .syncFound queryId account ∉ (s.runTask env view task).2 := by
  intro hmem
  have haddQuery (batchId : UInt32) (ask : UInt64 → SyncQuery) :
      .syncFound queryId account ∉ (s.addQuery batchId ask).2 := by
    unfold Syncer.addQuery
    split <;> simp
  cases task with
  | add account height previous stat batchId =>
      change _ ∈ (s.add account height previous stat batchId).2 at hmem
      unfold Syncer.add at hmem
      dsimp only at hmem
      split at hmem
      · cases hmem
      · simp at hmem
  | blockQuery account info batchId => exact haddQuery _ _ hmem
  | blockQueryByHash hash batchId => exact haddQuery _ _ hmem
  | queryCallback account status block =>
      change _ ∈ (s.queryCallback env account status block).2 at hmem
      unfold Syncer.queryCallback at hmem
      split at hmem
      · cases hmem
      · split at hmem
        · cases hmem
        · cases status <;> simp at hmem
  | syncRelated block batchId =>
      obtain ⟨_, _, _, heq⟩ := mem_syncRelated hmem
      cases heq
  | syncFound queryId account =>
      cases view with
      | none => cases hmem
      | some view =>
          obtain ⟨_, _, heq⟩ := syncAccount_add view.1 account (s.batchId queryId)
          cases (List.mem_singleton.mp hmem).trans heq
  | _ => cases hmem

theorem Syncer.FoundLast.take (h : s.FoundLast) (action : SyncAction) : (s.take env action).FoundLast := by
  have hstart {tasks : List SyncTask} (hnew : ∀ queryId account,
      .syncFound queryId account ∈ tasks → tasks = [.syncFound queryId account, .eraseQuery queryId])
      {threads : List (List SyncTask)} (hthreads : ∀ tasks ∈ threads, tasks ∈ s.threads) :
      ∀ other ∈ tasks :: threads, ∀ queryId account, .syncFound queryId account ∈ other →
        other = [.syncFound queryId account, .eraseQuery queryId] :=
    List.forall_mem_cons.mpr ⟨hnew, fun other hother => h other (hthreads other hother)⟩
  cases action with
  | call account height previous stat batchId => exact hstart (by simp) fun _ hmem => hmem
  | notify operation code block =>
      refine hstart (fun queryId account hmem => ?_) fun _ hmem => ?_
      · unfold Syncer.processorCallback at hmem
        repeat' split at hmem
        all_goals simp at hmem
      · rwa [(processorCallback_rest operation code block).2] at hmem
  | answer index acks =>
      change (s.answerQuery index acks).FoundLast
      unfold Syncer.answerQuery
      cases hget : s.live[index]? with
      | none => exact h
      | some query =>
          dsimp only
          cases hanswer : query.answer acks with
          | inl query' => exact h
          | inr tasks =>
              refine hstart (fun queryId account hmem => ?_) fun _ hmem => hmem
              cases haccount : query.account with
              | none =>
                  rcases answer_hash haccount hanswer with rfl | ⟨found, rfl⟩
                  · simp at hmem
                  · simp only [List.mem_cons, SyncTask.syncFound.injEq, List.not_mem_nil, or_false,
                      reduceCtorEq] at hmem
                    obtain ⟨rfl, rfl⟩ := hmem
                    rfl
              | some asked =>
                  obtain ⟨front, rfl, hfront⟩ := answer_account haccount hanswer
                  cases hfront <;> simp at hmem
  | run index view =>
      change (s.runThread env index view).FoundLast
      unfold Syncer.runThread
      split
      · rename_i task tasks hget
        have hthread := h _ (List.mem_of_getElem? hget)
        refine hstart (fun queryId account hmem => ?_) fun other hmem => ?_
        · rcases List.mem_append.mp hmem with hmem | hmem
          · exact absurd hmem (runTask_not_found queryId account)
          · have heq := hthread queryId account (List.mem_cons_of_mem _ hmem)
            obtain ⟨-, rfl⟩ := List.cons.inj heq
            simp at hmem
        · have hrest := congrArg (other ∈ ·) (@runTask_threads env
            { s with threads := s.threads.eraseIdx index } view task)
          exact List.mem_of_mem_eraseIdx (hrest.mp hmem)
      · exact h
  | resetStat => exact h

variable {batchId : UInt32}

theorem Syncer.Finished.addQuery {s : Syncer} (h : s.Finished batchId) {other : UInt32} (hother : other ≠ batchId)
    (ask : UInt64 → SyncQuery) : (s.addQuery other ask).1.Finished batchId := by
  unfold Syncer.addQuery
  split
  · exact h
  · refine ⟨h.1, fun queryId id hget => ?_⟩
    change (s.queries.put _ _).get queryId = some id at hget
    rw [Table.get_put] at hget
    split at hget
    · exact Option.some.inj hget ▸ hother
    · exact h.2 queryId id hget

theorem Syncer.Finished.put {s : Syncer} (h : s.Finished batchId) {account : Account} {info : SyncInfo}
    (hinfo : info.batchId ≠ batchId) : ∀ other entry,
      (s.syncs.put account info).get other = some entry → entry.batchId ≠ batchId := by
  intro other entry hget
  rw [Table.get_put] at hget
  split at hget
  · exact Option.some.inj hget ▸ hinfo
  · exact h.1 other entry hget

theorem Syncer.Finished.del {s : Syncer} (h : s.Finished batchId) (account : Account) : ∀ other entry,
      (s.syncs.del account).get other = some entry → entry.batchId ≠ batchId := by
  intro other entry hget
  rw [Table.get_del] at hget
  split at hget
  · cases hget
  · exact h.1 other entry hget

-- A task that has nothing to do with a finished batch does not bring it back.
theorem runTask_quiet {view : SyncView} {task : SyncTask} (h : s.Finished batchId)
    (hcarries : ¬task.carries batchId)
    (hquery : ∀ account info other, task = .blockQuery account info other → other ≠ batchId)
    (hfound : ∀ queryId account, task = .syncFound queryId account → s.batchId queryId ≠ batchId) :
    (s.runTask env view task).1.Finished batchId ∧
      ∀ more ∈ (s.runTask env view task).2, ¬more.carries batchId := by
  have haddQuery (other : UInt32) (ask : UInt64 → SyncQuery) :
      ∀ more ∈ (s.addQuery other ask).2, ¬more.carries batchId := by
    unfold Syncer.addQuery
    split <;> simp [SyncTask.carries]
  cases task with
  | add account height previous stat other =>
      change (s.add account height previous stat other).1.Finished batchId ∧
        ∀ more ∈ (s.add account height previous stat other).2, _
      unfold Syncer.add
      dsimp only
      split
      · exact ⟨h, fun _ hmem => by cases hmem⟩
      · exact ⟨⟨h.put hcarries, h.2⟩, by simp [SyncTask.carries]⟩
  | blockQuery account info other =>
      exact ⟨h.addQuery (hquery _ _ _ rfl) _, haddQuery _ _⟩
  | blockQueryByHash hash other => exact ⟨h.addQuery hcarries _, haddQuery _ _⟩
  | queryCallback account status block =>
      change (s.queryCallback env account status block).1.Finished batchId ∧
        ∀ more ∈ (s.queryCallback env account status block).2, _
      unfold Syncer.queryCallback
      cases hget : s.syncs.get account with
      | none => exact ⟨h, fun _ hmem => by cases hmem⟩
      | some info =>
          dsimp only
          split
          · exact ⟨h, fun _ hmem => by cases hmem⟩
          · cases status with
            | success => exact ⟨⟨h.put (h.1 account info hget), h.2⟩, by simp [SyncTask.carries]⟩
            | _ => exact ⟨⟨h.del account, h.2⟩, by simp [SyncTask.carries]⟩
  | syncRelated block other =>
      refine ⟨h, fun more hmem => ?_⟩
      obtain ⟨_, _, _, rfl⟩ := mem_syncRelated hmem
      exact hcarries
  | syncFound queryId account =>
      cases view with
      | none => exact ⟨h, fun _ hmem => by cases hmem⟩
      | some view =>
          refine ⟨h, fun more hmem => ?_⟩
          obtain ⟨_, _, heq⟩ := syncAccount_add view.1 account (s.batchId queryId)
          rw [(List.mem_singleton.mp hmem).trans heq]
          exact hfound queryId account rfl
  | ask query => exact ⟨h, fun _ hmem => by cases hmem⟩
  | processBlock block => exact ⟨h, fun _ hmem => by cases hmem⟩
  | erase account => exact ⟨⟨h.del account, h.2⟩, fun _ hmem => by cases hmem⟩
  | eraseQuery queryId =>
      refine ⟨⟨h.1, fun other id hget => ?_⟩, fun _ hmem => by cases hmem⟩
      change (s.queries.del queryId).get other = some id at hget
      rw [Table.get_del] at hget
      split at hget
      · cases hget
      · exact h.2 other id hget

theorem Syncer.Quiet.take (hquiet : s.Quiet batchId) (hfinished : s.Finished batchId)
    (hfound : s.FoundLast) (h : s.Settles s.works) {action : SyncAction} (hfits : s.Fits env action)
    (hcall : ∀ account height previous stat, action ≠ .call account height previous stat batchId) :
    (s.take env action).Quiet batchId ∧ (s.take env action).Finished batchId := by
  have hstart {tasks : List SyncTask} (hnew : ∀ task ∈ tasks, ¬task.carries batchId)
      {threads : List (List SyncTask)} (hthreads : ∀ tasks ∈ threads, tasks ∈ s.threads) :
      ∀ other ∈ tasks :: threads, ∀ task ∈ other, ¬task.carries batchId :=
    List.forall_mem_cons.mpr ⟨hnew, fun other hother => hquiet other (hthreads other hother)⟩
  cases action with
  | call account height previous stat other =>
      refine ⟨hstart (fun task hmem hcarries => ?_) fun _ hmem => hmem, hfinished⟩
      cases List.mem_singleton.mp hmem
      cases hcarries
      exact hcall account height previous stat rfl
  | notify operation code block =>
      have hthreads := (@processorCallback_rest env s operation code block).2
      suffices hnext : (∀ task ∈ (s.processorCallback env operation code block).2,
          ¬task.carries batchId) ∧ (s.processorCallback env operation code block).1.Finished batchId by
        exact ⟨hstart hnext.1 fun tasks hmem => by rwa [hthreads] at hmem, hnext.2⟩
      unfold Syncer.processorCallback
      split
      · exact ⟨(fun _ hmem => by cases hmem), hfinished⟩
      · cases hget : s.syncs.get block.account with
        | none => exact ⟨(fun _ hmem => by cases hmem), hfinished⟩
        | some info =>
            have hother := hfinished.1 _ info hget
            dsimp only
            split_ifs
            · exact ⟨(fun _ hmem => by cases hmem), hfinished⟩
            · exact ⟨(fun _ hmem => by cases hmem), hfinished⟩
            · exact ⟨by simp [SyncTask.carries], hfinished.put hother, hfinished.2⟩
            · exact ⟨by simp [SyncTask.carries, hother], hfinished.put hother, hfinished.2⟩
            · exact ⟨by simp [SyncTask.carries, hother], hfinished.del _, hfinished.2⟩
            · exact ⟨(fun _ hmem => by cases hmem), hfinished.del _, hfinished.2⟩
  | answer index acks =>
      change (s.answerQuery index acks).Quiet batchId ∧ (s.answerQuery index acks).Finished batchId
      unfold Syncer.answerQuery
      cases hget : s.live[index]? with
      | none => exact ⟨hquiet, hfinished⟩
      | some query =>
          dsimp only
          cases hanswer : query.answer acks with
          | inl query' => exact ⟨hquiet, hfinished⟩
          | inr tasks =>
              refine ⟨hstart ?_ fun _ hmem => hmem, hfinished⟩
              cases haccount : query.account with
              | none =>
                  rcases answer_hash haccount hanswer with rfl | ⟨found, rfl⟩
                  · simp [SyncTask.carries]
                  · simp [SyncTask.carries]
              | some asked =>
                  obtain ⟨front, rfl, hfront⟩ := answer_account haccount hanswer
                  cases hfront <;> simp [SyncTask.carries]
  | run index view =>
      obtain ⟨task, tasks, hget, -⟩ := hfits
      have hmem := List.mem_of_getElem? hget
      have hworks : ∀ other ∈ task :: tasks, other ∈ s.works := fun other hother =>
        List.mem_append_right _ (List.mem_flatten.mpr ⟨_, hmem, hother⟩)
      have hrun := @runTask_quiet env { s with threads := s.threads.eraseIdx index } batchId view task
        hfinished (hquiet _ hmem task List.mem_cons_self) ?_ ?_
      · change (s.runThread env index view).Quiet batchId ∧
          (s.runThread env index view).Finished batchId
        unfold Syncer.runThread
        rw [hget]
        refine ⟨hstart (fun more hmore => ?_) fun other hother => ?_, hrun.1⟩
        · rcases List.mem_append.mp hmore with hmore | hmore
          · exact hrun.2 more hmore
          · exact hquiet _ hmem more (List.mem_cons_of_mem _ hmore)
        · have hrest := congrArg (other ∈ ·) (@runTask_threads env
            { s with threads := s.threads.eraseIdx index } view task)
          exact List.mem_of_mem_eraseIdx (hrest.mp hother)
      · rintro account info other rfl
        obtain ⟨entry, hentry, -, -, -, rfl⟩ := h.one.of_mem (hworks _ List.mem_cons_self)
          (decide_eq_true rfl : SyncTask.claims account (.blockQuery account info other) = true)
        exact hfinished.1 account entry hentry
      · rintro queryId account rfl
        -- the number is in the table until the thread has given it back
        have hlast := hfound _ hmem queryId account List.mem_cons_self
        have hheld : 0 < s.works.countP (SyncTask.holds queryId) := List.countP_pos_iff.mpr
          ⟨.eraseQuery queryId, hworks _ (hlast ▸ by simp), by simp [SyncTask.holds]⟩
        rw [h.numbered] at hheld
        split at hheld
        · obtain ⟨id, hid⟩ := (Table.contains_iff _ _).mp ‹_›
          change s.batchId queryId ≠ batchId
          rw [Syncer.batchId, hid]
          exact hfinished.2 queryId id hid
        · cases hheld
  | resetStat =>
      refine ⟨hquiet, fun account info hget => ?_, hfinished.2⟩
      change (s.syncs.mapValues _).get account = some info at hget
      rw [Table.get_mapValues] at hget
      obtain ⟨entry, hentry, rfl⟩ := Option.map_eq_some_iff.mp hget
      exact hfinished.1 account entry hentry

theorem syncer_settled (h : (syncMachine env).Run (fun _ _ => True) history s) :
    s.Settles s.works ∧ s.FoundLast := by
  refine Machine.Run.invariant (P := fun _ s => s.Settles s.works ∧ s.FoundLast) h ?_ ?_
  · rintro s rfl
    refine ⟨⟨fun account => ?_, fun queryId => ?_, ?_, fun _ hmem => by cases hmem⟩,
      fun _ hmem => by cases hmem⟩
    · change Claimed account ((Table.empty : Table Account SyncInfo).get account) []
      rw [Table.get_empty]
      rfl
    · change 0 = if ((Table.empty : Table UInt64 UInt32).get queryId).isSome = true then 1 else 0
      rw [Table.get_empty]
      rfl
    · change 0 + (Table.empty : Table Account SyncInfo).count _ ≤ 0
      rw [Table.count_empty]
  · intro history s action _ hfits _ ⟨hsettles, hfound⟩
    exact ⟨hsettles.take hfits, hfound.take action⟩

-- A history leads to one state.
theorem run_state (h : (syncMachine env).Run (fun _ _ => True) history s)
    (h' : (syncMachine env).Run (fun _ _ => True) history s') : s' = s := by
  cases h with
  | start hstart _ =>
      cases h' with
      | start hstart' _ => exact hstart'.trans hstart.symm
  | step _ _ _ =>
      cases h' with
      | step _ _ _ => rfl

-- A finished batch that no thread carries stays finished until something outside adds to it.
theorem run_finished (h : (syncMachine env).Run (fun _ _ => True) history s)
    (hfinished : s.Finished batchId) (hquiet : s.Quiet batchId)
    {later : History Syncer SyncAction} (hlater : (syncMachine env).Run (fun _ _ => True)
      (later ++ history) s')
    (hcall : ∀ taken ∈ later, ∀ account height previous stat,
      taken.2 ≠ .call account height previous stat batchId) :
    s'.Quiet batchId ∧ s'.Finished batchId := by
  induction later generalizing s' with
  | nil => exact run_state h hlater ▸ ⟨hquiet, hfinished⟩
  | cons taken later ih =>
      obtain ⟨hlast, hbefore⟩ := List.forall_mem_cons.mp hcall
      cases hlater with
      | step hrun hfits _ =>
          obtain ⟨hquiet, hfinished⟩ := ih hrun hbefore
          obtain ⟨hsettles, hfound⟩ := syncer_settled hrun
          exact hquiet.take hfinished hfound hsettles hfits hlast

-- In every state that the locks of all threads lead to: an entry at `QUERY` has one query, being
-- made, waiting or being taken in, for the height and the block behind which it goes on, and no
-- other account has one; what is taken in is the block that the entry names, and none is missing;
-- no more is missed than was counted; and a finished batch stays finished, unless a thread that
-- carries it, or a new call, adds to it.
theorem syncer_exact (h : (syncMachine env).Run (fun _ _ => True) history s) :
    OneEach s.syncs s.works ∧
    (∀ account block, .queryCallback account .success block ∈ s.works →
      ∃ info b, s.syncs.get account = some info ∧ info.status = .query ∧ block = some b ∧
        b.account = account ∧ b.height = info.height.toNat ∧
        (info.height ≠ 0 → info.previous ≠ 0 → b.previous = info.previous)) ∧
    (∀ block, .processBlock block ∈ s.works → block ≠ none) ∧
    s.stat.miss ≤ s.stat.total ∧
    ∀ batchId later s', (syncMachine env).Run (fun _ _ => True) (later ++ history) s' →
      (∀ taken ∈ later, ∀ account height previous stat,
        taken.2 ≠ .call account height previous stat batchId) →
      s.Finished batchId → s.Quiet batchId → s'.Finished batchId := by
  obtain ⟨hsettles, -⟩ := syncer_settled h
  refine ⟨hsettles.one, fun account block hmem => ?_, hsettles.given,
    (Nat.le_add_right _ _).trans hsettles.counted,
    fun batchId later s' hrun hcall hfinished hquiet =>
      (run_finished h hfinished hquiet hrun hcall).2⟩
  obtain ⟨info, hget, hquery, hsome, hblock⟩ := hsettles.one.of_mem hmem
    (decide_eq_true rfl : SyncTask.claims account (.queryCallback account .success block) = true)
  obtain ⟨b, hb, haccount⟩ := hsome (.inl rfl)
  obtain ⟨hheight, hprevious⟩ := hblock rfl b hb
  exact ⟨info, b, hget, hquery, hb, haccount, hheight, hprevious⟩

end Runs

-- An account is asked for, and no node has answered in time.
def sampleSyncs : List SyncAction :=
  [.call 5 0 0 true 7, .run 0 none, .run 0 none, .run 0 none, .answer 0 [⟨.timeout, none⟩]]

theorem sampleSyncs_run : (syncMachine sampleEnv).Run (fun _ _ => True)
    ((syncMachine sampleEnv).exec .empty sampleSyncs).1
    ((syncMachine sampleEnv).exec .empty sampleSyncs).2 := by
  refine .step (.step (.step (.step (.step (.start rfl trivial) trivial trivial)
    ⟨_, _, rfl, rfl⟩ trivial) ⟨_, _, rfl, rfl⟩ trivial) ⟨_, _, rfl, rfl⟩ trivial) ?_ trivial
  exact ⟨_, rfl, by simp [SyncQuery.Acknowledges]⟩

theorem sampleSyncs_exact :
    let s := ((syncMachine sampleEnv).exec .empty sampleSyncs).2
    (∃ info task, s.syncs.get 5 = some info ∧ s.works.filter (SyncTask.claims 5) = [task] ∧
      task.Suits 5 info) ∧ s.stat.miss ≤ s.stat.total := by
  obtain ⟨hone, -, -, hmiss, -⟩ := syncer_exact sampleSyncs_run
  refine ⟨?_, hmiss⟩
  obtain ⟨task, hwork, hsuits⟩ := hone 5
  exact ⟨_, task, rfl, hwork, hsuits⟩

end Raicoin
