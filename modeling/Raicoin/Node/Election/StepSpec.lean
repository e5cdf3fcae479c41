import Raicoin.Node.Election.Runs

-- What one action can make of the election of an account.
namespace Raicoin

open Lib

section Parts

variable {env : Env}

-- What the operations on blocks and votes leave alone. A fork stays found.
structure Election.Steady (e e' : Election env) : Prop where
  account : e'.account = e.account
  height : e'.height = e.height
  wins : e'.wins = e.wins
  confirms : e'.confirms = e.confirms
  winner : e'.winner = e.winner
  forkFound : e.forkFound = true → e'.forkFound = true

namespace Election

variable {e e' e'' : Election env}

theorem Steady.refl (e : Election env) : e.Steady e := ⟨rfl, rfl, rfl, rfl, rfl, id⟩

theorem Steady.trans (h : e.Steady e') (h' : e'.Steady e'') : e.Steady e'' :=
  ⟨h'.account.trans h.account, h'.height.trans h.height, h'.wins.trans h.wins,
    h'.confirms.trans h.confirms, h'.winner.trans h.winner, h'.forkFound ∘ h.forkFound⟩

theorem addRepVoteInfo_steady (e : Election env) (rep : Account) (info : RepVoteInfo) :
    e.Steady (e.addRepVoteInfo_ rep info) := ⟨rfl, rfl, rfl, rfl, rfl, id⟩

theorem addConflict_steady (e : Election env) (rep : Account) (vote : Vote) :
    e.Steady (e.addConflict_ rep vote) := ⟨rfl, rfl, rfl, rfl, rfl, id⟩

theorem addBlock_steady (e : Election env) (steady : Int) (block : Block) :
    e.Steady (e.addBlock steady block) := by
  unfold addBlock
  split
  · dsimp only
    split
    · exact ⟨rfl, rfl, rfl, rfl, rfl, fun _ => rfl⟩
    · exact ⟨rfl, rfl, rfl, rfl, rfl, id⟩
  · exact ⟨rfl, rfl, rfl, rfl, rfl, id⟩

-- Votes and conflicts are not touched by blocks coming and going.
theorem addBlock_votes (e : Election env) (steady : Int) (block : Block) :
    (e.addBlock steady block).votes = e.votes ∧
      (e.addBlock steady block).conflicts = e.conflicts := by
  unfold addBlock
  split
  · dsimp only
    split
    · exact ⟨rfl, rfl⟩
    · exact ⟨rfl, rfl⟩
  · exact ⟨rfl, rfl⟩

theorem addBlocks_steady (e : Election env) (steady : Int) (blocks : List Block) :
    e.Steady (blocks.foldl (fun e b => e.addBlock steady b) e) := by
  induction blocks generalizing e with
  | nil => exact .refl e
  | cons b blocks ih => exact (e.addBlock_steady steady b).trans (ih _)

theorem delBlock_eq (e : Election env) (hash : BlockHash) :
    e.delBlock hash = { e with blocks := (e.delBlock hash).blocks } := by
  unfold delBlock
  split
  · rfl
  · split
    · rfl
    · dsimp only
      split <;> rfl

theorem delBlock_steady (e : Election env) (hash : BlockHash) : e.Steady (e.delBlock hash) := by
  rw [delBlock_eq]
  exact ⟨rfl, rfl, rfl, rfl, rfl, id⟩

def withVotes (e : Election env) (votes : Table Account RepVoteInfo) : Election env :=
  { e with votes }

theorem delBlock_withVotes (e : Election env) (votes : Table Account RepVoteInfo)
    (hash : BlockHash) : (e.withVotes votes).delBlock hash = (e.delBlock hash).withVotes votes := by
  unfold delBlock withVotes
  dsimp only
  split
  · rfl
  · split
    · rfl
    · split <;> rfl

-- The two loops of `PurgeOutdatedVotes` do for each vote what one would do in one go.
def purgeVote (e : Election env) (vote : Account × RepVoteInfo) : Election env :=
  (e.delBlock vote.2.lastVote.hash).withVotes (e.votes.del vote.1)

def delBlocks (e : Election env) (list : List (Account × RepVoteInfo)) : Election env :=
  list.foldl (fun e vote => e.delBlock vote.2.lastVote.hash) e

theorem delBlocks_withVotes (e : Election env) (votes : Table Account RepVoteInfo)
    (list : List (Account × RepVoteInfo)) :
    (e.withVotes votes).delBlocks list = (e.delBlocks list).withVotes votes := by
  induction list generalizing e with
  | nil => rfl
  | cons vote list ih =>
      change ((e.withVotes votes).delBlock _).delBlocks list = _
      rw [delBlock_withVotes, ih]
      rfl

theorem delBlocks_votes (e : Election env) (list : List (Account × RepVoteInfo)) :
    (e.delBlocks list).votes = e.votes := by
  induction list generalizing e with
  | nil => rfl
  | cons vote list ih =>
      change ((e.delBlock _).delBlocks list).votes = _
      rw [ih, delBlock_eq]

theorem purge_eq_foldl (e : Election env) (list : List (Account × RepVoteInfo)) :
    (e.delBlocks list).withVotes (list.foldl (fun votes vote => votes.del vote.1) e.votes) =
      list.foldl purgeVote e := by
  induction list generalizing e with
  | nil => rfl
  | cons vote list ih =>
      rw [List.foldl_cons, List.foldl_cons, ← ih, purgeVote, delBlocks_withVotes]
      rfl

theorem purgeVote_steady (e : Election env) (vote : Account × RepVoteInfo) :
    e.Steady (e.purgeVote vote) := by
  unfold purgeVote withVotes
  rw [delBlock_eq]
  exact ⟨rfl, rfl, rfl, rfl, rfl, id⟩

theorem purgeOutdatedVotes_eq (e : Election env) (order : List Account)
    (clock : Account → UInt64) :
    e.purgeOutdatedVotes order clock = (e.outdated order clock).foldl purgeVote e := by
  rw [← purge_eq_foldl, ← delBlocks_votes e (e.outdated order clock)]
  rfl

theorem purgeOutdatedVotes_steady (e : Election env) (order : List Account)
    (clock : Account → UInt64) : e.Steady (e.purgeOutdatedVotes order clock) := by
  rw [purgeOutdatedVotes_eq]
  generalize e.outdated order clock = list
  induction list generalizing e with
  | nil => exact .refl e
  | cons vote list ih => exact (e.purgeVote_steady vote).trans (ih _)

-- Purging votes finds no fork.
theorem purgeOutdatedVotes_forkFound (e : Election env) (order : List Account)
    (clock : Account → UInt64) : (e.purgeOutdatedVotes order clock).forkFound = e.forkFound := by
  rw [purgeOutdatedVotes_eq]
  generalize e.outdated order clock = list
  induction list generalizing e with
  | nil => rfl
  | cons vote list ih =>
      rw [List.foldl_cons, ih, purgeVote, withVotes, delBlock_eq]

end Election

namespace Elections

variable {s : Elections env} {e : Election env} {account : Account}

-- The container has each election under its account.
def Seated (s : Elections env) : Prop :=
  ∀ account e, s.elections.get account = some e → e.account = account

@[simp] theorem tryConcurrency_elections (s : Elections env) (e : Election env) :
    (s.tryConcurrency_ e).1.elections = s.elections := by
  unfold tryConcurrency_
  dsimp only
  split
  · split <;> rfl
  · split
    · rfl
    · split <;> rfl

theorem modify_get (s : Elections env) (e : Election env) (account : Account) :
    (s.modify e).elections.get account =
      if account = e.account then some e else s.elections.get account :=
  Table.get_put s.elections e.account e account

theorem erase_get (s : Elections env) (e : Election env) (account : Account) :
    (s.erase_ e).elections.get account =
      if account = e.account then none else s.elections.get account :=
  Table.get_del s.elections e.account account

theorem addBlock_snd (s : Elections env) (e : Election env) (steady : Int) (block : Block) :
    (s.addBlock_ e steady block).2 = e.addBlock steady block := rfl

theorem addBlock_get (s : Elections env) (e : Election env) (steady : Int) (block : Block)
    (account : Account) : (s.addBlock_ e steady block).1.elections.get account =
      if account = e.account then some (e.addBlock steady block)
      else s.elections.get account := by
  unfold addBlock_
  dsimp only
  rw [modify_get, (e.addBlock_steady steady block).account]
  split
  · rfl
  · split
    · rw [tryConcurrency_elections]
    · rfl

-- `Add` to an election that is there.
theorem addBlocks_get (blocks : List Block) (s : Elections env) (e : Election env) (steady : Int)
    (hget : s.elections.get e.account = some e) (account : Account) :
    (blocks.foldl (fun p b => p.1.addBlock_ p.2 steady b) (s, e)).1.elections.get account =
      if account = e.account then some (blocks.foldl (fun e b => e.addBlock steady b) e)
      else s.elections.get account := by
  induction blocks generalizing s e with
  | nil =>
      split
      · rename_i heq
        rw [heq]
        exact hget
      · rfl
  | cons b blocks ih =>
      have haccount := (e.addBlock_steady steady b).account
      have hnext := ih (s.addBlock_ e steady b).1 (e.addBlock steady b) (by
        rw [addBlock_get, haccount, if_pos rfl])
      rw [List.foldl_cons, List.foldl_cons]
      refine hnext.trans ?_
      rw [haccount]
      split
      · rfl
      · rename_i hne
        rw [addBlock_get, if_neg hne]

-- A new election takes the place of an older one of the account.
theorem start_get (s : Elections env) (fresh : Election env) (account : Account) :
    (if fresh.forkFound then ((s.modify fresh).tryConcurrency_ fresh).1
      else s.modify fresh).elections.get account =
      if account = fresh.account then some fresh else s.elections.get account := by
  split
  · rw [tryConcurrency_elections, modify_get]
  · rw [modify_get]

-- The action is not about the election of the account.
structure Idle (s : Elections env) (account : Account) (action : ElectionAction) : Prop where
  addCalls : ∀ hash (before : ElectionHistory env),
    addCalls account hash ((s, action) :: before) = addCalls account hash before
  rounds : ∀ before : ElectionHistory env, rounds account ((s, action) :: before) = rounds account before

end Elections

def Election.addConflicting (e : Election env) (steady : Int) (representative : Account)
    (voteFirst voteSecond : Vote) (blockFirst blockSecond : Block) (weight : Amount) :
    Election env :=
  (((e.addRepVoteInfo_ representative ⟨true, weight, voteFirst⟩).addBlock steady
    blockFirst).addConflict_ representative voteSecond).addBlock steady blockSecond

theorem Election.addConflicting_steady (e : Election env) (steady : Int) (representative : Account)
    (voteFirst voteSecond : Vote) (blockFirst blockSecond : Block) (weight : Amount) :
    e.Steady (e.addConflicting steady representative voteFirst voteSecond blockFirst blockSecond
      weight) :=
  (((e.addRepVoteInfo_steady _ _).trans (addBlock_steady _ _ _)).trans
    (addConflict_steady _ _ _)).trans (addBlock_steady _ _ _)

-- The election that an action leaves where it changed something.
inductive ElectionChange (s : Elections env) (account : Account) :
    ElectionAction → Election env → Prop where
  | fresh {delay : UInt32} {steady : Int} {first : Block} {rest : List Block}
      (hadd : s.addition account (first :: rest) = .fresh) :
      ElectionChange s account (.add delay steady (first :: rest))
        ((first :: rest).foldl (fun e b => e.addBlock steady b)
          (Election.create account first.height delay steady))
  | added {e : Election env} {delay : UInt32} {steady : Int} {blocks : List Block}
      (hget : s.elections.get account = some e) (hadd : s.addition account blocks = .existing) :
      ElectionChange s account (.add delay steady blocks)
        (blocks.foldl (fun e b => e.addBlock steady b) e)
  | voted {e : Election env} {steady : Int} {rep : Account} {timestamp : UInt64}
      {signature : Signature} {block : Block} {weight : Amount}
      (hget : s.elections.get account = some e) (hnone : e.votes.get rep = none) :
      ElectionChange s account (.confirm steady rep timestamp signature block weight)
        ((e.addRepVoteInfo_ rep ⟨false, weight, timestamp, signature, env.hash block⟩).addBlock
          steady block)
  | contradicted {e : Election env} {steady : Int} {rep : Account} {timestamp : UInt64}
      {signature : Signature} {block : Block} {weight : Amount} {info : RepVoteInfo}
      (hget : s.elections.get account = some e) (hinfo : e.votes.get rep = some info)
      (hclean : info.conflictFound = false) :
      ElectionChange s account (.confirm steady rep timestamp signature block weight)
        (((e.addRepVoteInfo_ rep ⟨true, weight, info.lastVote⟩).addConflict_ rep
          ⟨timestamp, signature, env.hash block⟩).addBlock steady block)
  | revoted {e : Election env} {steady : Int} {rep : Account} {timestamp : UInt64}
      {signature : Signature} {block : Block} {weight : Amount} {info : RepVoteInfo}
      (hget : s.elections.get account = some e) (hinfo : e.votes.get rep = some info)
      (hclean : info.conflictFound = false) :
      ElectionChange s account (.confirm steady rep timestamp signature block weight)
        (((e.delBlock info.lastVote.hash).addRepVoteInfo_ rep
          ⟨false, weight, timestamp, signature, env.hash block⟩).addBlock steady block)
  | reported {e : Election env} {steady : Int} {rep : Account} {timestampFirst timestampSecond : UInt64}
      {signatureFirst signatureSecond : Signature} {blockFirst blockSecond : Block} {weight : Amount}
      (hget : s.elections.get account = some e) (hnone : e.votes.get rep = none) :
      ElectionChange s account (.conflict steady rep timestampFirst timestampSecond signatureFirst
          signatureSecond blockFirst blockSecond weight)
        (e.addConflicting steady rep ⟨timestampFirst, signatureFirst, env.hash blockFirst⟩
          ⟨timestampSecond, signatureSecond, env.hash blockSecond⟩ blockFirst blockSecond weight)
  | reportedVoter {e : Election env} {steady : Int} {rep : Account}
      {timestampFirst timestampSecond : UInt64} {signatureFirst signatureSecond : Signature}
      {blockFirst blockSecond : Block} {weight : Amount} {info : RepVoteInfo}
      (hget : s.elections.get account = some e) (hinfo : e.votes.get rep = some info)
      (hclean : info.conflictFound = false) :
      ElectionChange s account (.conflict steady rep timestampFirst timestampSecond signatureFirst
          signatureSecond blockFirst blockSecond weight)
        ((e.delBlock info.lastVote.hash).addConflicting steady rep
          ⟨timestampFirst, signatureFirst, env.hash blockFirst⟩
          ⟨timestampSecond, signatureSecond, env.hash blockSecond⟩ blockFirst blockSecond weight)
  | purged {e : Election env} {order : List Account} {clock : Account → UInt64}
      (hget : s.elections.get account = some e) :
      ElectionChange s account (.purge account order clock) (e.purgeOutdatedVotes order clock)
  | processed {e e' : Election env} {r : Readings} (hget : s.elections.get account = some e)
      (hresult : (s.processElection e r).elections.elections.get account = some e') :
      ElectionChange s account (.process account r) e'

namespace Elections

variable {s : Elections env} {e e' : Election env} {account : Account}

theorem idle_add {delay : UInt32} {steady : Int} {blocks : List Block}
    (h : s.addition account blocks = .none) : s.Idle account (.add delay steady blocks) := by
  constructor
  · intro hash before
    rw [addCalls, h]
  · intro before
    rw [rounds, h]

theorem create_account (first : Block) (rest : List Block) (delay : UInt32) (steady : Int) :
    ((first :: rest).foldl (fun e b => e.addBlock steady b)
      (Election.create first.account first.height delay steady : Election env)).account =
      first.account :=
  ((Election.create first.account first.height delay steady).addBlocks_steady steady
    (first :: rest)).account

private theorem add_get (hseated : s.Seated) {delay : UInt32} {steady : Int} {blocks : List Block}
    (h : (s.add delay steady blocks).elections.get account = some e') :
    (s.elections.get account = some e' ∧ s.Idle account (.add delay steady blocks)) ∨
      ElectionChange s account (.add delay steady blocks) e' := by
  cases blocks with
  | nil => exact .inl ⟨h, idle_add rfl⟩
  | cons first rest =>
      unfold add at h
      dsimp only at h
      by_cases hmixed : ∃ b ∈ first :: rest, b.account ≠ first.account ∨ b.height ≠ first.height
      · rw [if_pos hmixed] at h
        exact .inl ⟨h, idle_add (by rw [addition, if_pos (.inl hmixed)])⟩
      rw [if_neg hmixed] at h
      by_cases haccount : first.account = account
      · subst haccount
        have hown : ¬((∃ b ∈ first :: rest, b.account ≠ first.account ∨ b.height ≠ first.height) ∨
            first.account ≠ first.account) := by
          rw [not_or]
          exact ⟨hmixed, fun hne => hne rfl⟩
        have haddition : s.addition first.account (first :: rest) =
            s.addition first.account (first :: rest) := rfl
        conv_rhs at haddition => rw [addition, if_neg hown]
        cases hget : s.elections.get first.account with
        | none =>
            rw [hget] at h haddition
            dsimp only at h
            rw [start_get, create_account, if_pos rfl] at h
            cases h
            exact .inr (.fresh haddition)
        | some e =>
            rw [hget] at h haddition
            dsimp only at h haddition
            by_cases hlower : e.height < first.height
            · rw [if_pos hlower] at h haddition
              exact .inl ⟨hget ▸ h, idle_add haddition⟩
            rw [if_neg hlower] at h haddition
            by_cases hhigher : e.height > first.height
            · rw [if_pos hhigher] at h haddition
              rw [start_get, create_account, if_pos rfl] at h
              cases h
              exact .inr (.fresh haddition)
            · rw [if_neg hhigher] at h haddition
              have hadded := addBlocks_get (first :: rest) s e steady
                (by rw [hseated _ _ hget, hget]) first.account
              rw [hseated _ _ hget, if_pos rfl] at hadded
              cases h.symm.trans hadded
              exact .inr (.added hget haddition)
      · -- The blocks are of another account.
        have hidle : s.Idle account (.add delay steady (first :: rest)) :=
          idle_add (by rw [addition, if_pos (.inr haccount)])
        have hne : account ≠ first.account := Ne.symm haccount
        cases hget : s.elections.get first.account with
        | none =>
            rw [hget] at h
            dsimp only at h
            rw [start_get, create_account, if_neg hne] at h
            exact .inl ⟨h, hidle⟩
        | some e =>
            rw [hget] at h
            dsimp only at h
            split at h
            · exact .inl ⟨h, hidle⟩
            · split at h
              · rw [start_get, create_account, if_neg hne, erase_get, hseated _ _ hget,
                  if_neg hne] at h
                exact .inl ⟨h, hidle⟩
              · have hadded := addBlocks_get (first :: rest) s e steady
                  (by rw [hseated _ _ hget, hget]) account
                rw [hseated _ _ hget, if_neg hne] at hadded
                exact .inl ⟨hadded.symm.trans h, hidle⟩

private theorem confirm_get (hseated : s.Seated) {steady : Int} {rep : Account} {timestamp : UInt64}
    {signature : Signature} {block : Block} {weight : Amount}
    (h : (s.processConfirm steady rep timestamp signature block weight).elections.elections.get
      account = some e') :
    s.elections.get account = some e' ∨
      ElectionChange s account (.confirm steady rep timestamp signature block weight) e' := by
  unfold processConfirm at h
  cases hget : s.elections.get block.account with
  | none =>
      rw [hget] at h
      exact .inl h
  | some e =>
      rw [hget] at h
      dsimp only at h
      split at h
      · exact .inl h
      have haccount := hseated _ _ hget
      by_cases hother : account = block.account
      · subst hother
        split at h
        · rename_i hnone
          dsimp only at h
          rw [addBlock_get, if_pos (show block.account = (e.addRepVoteInfo_ _ _).account from
            haccount.symm)] at h
          cases h
          exact .inr (.voted hget hnone)
        · rename_i info hinfo
          split at h
          · exact .inl h
          rename_i hclean
          have hclean' : info.conflictFound = false := by simpa using hclean
          split at h
          · dsimp only at h
            rw [addBlock_get, if_pos (show block.account =
              ((e.addRepVoteInfo_ _ _).addConflict_ _ _).account from haccount.symm)] at h
            cases h
            exact .inr (.contradicted hget hinfo hclean')
          · split at h
            · exact .inl h
            · dsimp only at h
              rw [addBlock_get, if_pos (show block.account =
                ((e.delBlock info.lastVote.hash).addRepVoteInfo_ _ _).account from
                  ((e.delBlock_steady info.lastVote.hash).account.trans haccount).symm)] at h
              cases h
              exact .inr (.revoted hget hinfo hclean')
      · refine .inl ?_
        split at h
        · dsimp only at h
          rwa [addBlock_get, if_neg (show account ≠ (e.addRepVoteInfo_ _ _).account from
            haccount.symm ▸ hother)] at h
        · rename_i info hinfo
          split at h
          · exact h
          split at h
          · dsimp only at h
            rwa [addBlock_get, if_neg (show account ≠
              ((e.addRepVoteInfo_ _ _).addConflict_ _ _).account from haccount.symm ▸ hother)] at h
          · split at h
            · exact h
            · dsimp only at h
              rwa [addBlock_get, if_neg (show account ≠
                ((e.delBlock info.lastVote.hash).addRepVoteInfo_ _ _).account from
                  ((e.delBlock_steady info.lastVote.hash).account.trans haccount).symm ▸ hother)] at h

theorem addConflictingVotes_get (s : Elections env) (e : Election env) (steady : Int)
    (rep : Account) (voteFirst voteSecond : Vote) (blockFirst blockSecond : Block)
    (weight : Amount) (account : Account) :
    (s.addConflictingVotes e steady rep voteFirst voteSecond blockFirst blockSecond
      weight).elections.elections.get account =
      if account = e.account then
        some (e.addConflicting steady rep voteFirst voteSecond blockFirst blockSecond weight)
      else s.elections.get account := by
  have hfirst := ((e.addRepVoteInfo_ rep ⟨true, weight, voteFirst⟩).addBlock_steady steady
    blockFirst).account
  unfold addConflictingVotes
  dsimp only
  rw [addBlock_snd, addBlock_get]
  change (if account = (Election.addBlock _ _ _).account then _ else _) = _
  rw [hfirst]
  change (if account = e.account then _ else _) = _
  split
  · rfl
  · rename_i hne
    rw [addBlock_get]
    exact if_neg hne

private theorem conflict_get (hseated : s.Seated) {steady : Int} {rep : Account}
    {timestampFirst timestampSecond : UInt64} {signatureFirst signatureSecond : Signature}
    {blockFirst blockSecond : Block} {weight : Amount}
    (h : (s.processConflict steady rep timestampFirst timestampSecond signatureFirst signatureSecond
      blockFirst blockSecond weight).elections.elections.get account = some e') :
    s.elections.get account = some e' ∨
      ElectionChange s account (.conflict steady rep timestampFirst timestampSecond signatureFirst
        signatureSecond blockFirst blockSecond weight) e' := by
  unfold processConflict at h
  split at h
  · exact .inl h
  dsimp only at h
  by_cases hagree : checkConflict_ ⟨timestampFirst, signatureFirst, env.hash blockFirst⟩
      ⟨timestampSecond, signatureSecond, env.hash blockSecond⟩ = false
  · rw [if_pos hagree] at h
    exact .inl h
  rw [if_neg hagree] at h
  cases hget : s.elections.get blockFirst.account with
  | none =>
      rw [hget] at h
      exact .inl h
  | some e =>
      rw [hget] at h
      dsimp only at h
      split at h
      · exact .inl h
      have haccount := hseated _ _ hget
      split at h
      · rename_i hnone
        dsimp only at h
        rw [addConflictingVotes_get] at h
        split at h
        · rename_i heq
          rw [haccount] at heq
          subst heq
          cases h
          exact .inr (.reported hget hnone)
        · exact .inl h
      · rename_i info hinfo
        split at h
        · exact .inl h
        · rename_i hclean
          dsimp only at h
          rw [addConflictingVotes_get, (e.delBlock_steady info.lastVote.hash).account] at h
          split at h
          · rename_i heq
            rw [haccount] at heq
            subst heq
            cases h
            exact .inr (.reportedVoter hget hinfo (by simpa using hclean))
          · exact .inl h

@[simp] theorem updateWeightInfo_elections (s : Elections env) (now : UInt64)
    (repWeights : RepWeights) (peers : List Account) :
    (s.updateWeightInfo_ now repWeights peers).elections = s.elections := by
  unfold updateWeightInfo_
  split <;> rfl

theorem countSingle_kept (e : Election env) (r : Readings) :
    (countSingle e r).account = e.account ∧ (countSingle e r).height = e.height ∧
      (countSingle e r).blocks = e.blocks ∧ (countSingle e r).votes = e.votes ∧
      (countSingle e r).conflicts = e.conflicts := by
  unfold countSingle
  split
  · exact ⟨rfl, rfl, rfl, rfl, rfl⟩
  · exact ⟨rfl, rfl, rfl, rfl, rfl⟩

theorem countRound_kept (e : Election env) (status : ElectionStatus) :
    (countRound e status).account = e.account ∧ (countRound e status).height = e.height ∧
      (countRound e status).blocks = e.blocks ∧ (countRound e status).votes = e.votes ∧
      (countRound e status).conflicts = e.conflicts := by
  unfold countRound
  dsimp only
  split
  · split <;> exact ⟨rfl, rfl, rfl, rfl, rfl⟩
  · exact ⟨rfl, rfl, rfl, rfl, rfl⟩

-- `ProcessElection` changes the election that it is about, whose blocks and votes are those
-- of the purge, or it takes it away.
theorem processElection_elections (s : Elections env) (e : Election env) (r : Readings) :
    (s.processElection e r).elections.elections = s.elections.del e.account ∨
    ∃ e' : Election env, e'.account = e.account ∧ e'.height = e.height ∧
      e'.blocks = (e.purgeOutdatedVotes r.order r.purgeClock).blocks ∧
      e'.votes = (e.purgeOutdatedVotes r.order r.purgeClock).votes ∧
      e'.conflicts = (e.purgeOutdatedVotes r.order r.purgeClock).conflicts ∧
      (s.processElection e r).elections.elections = s.elections.put e.account e' := by
  have haccount := (e.purgeOutdatedVotes_steady r.order r.purgeClock).account
  have hheight := (e.purgeOutdatedVotes_steady r.order r.purgeClock).height
  unfold processElection
  generalize e.purgeOutdatedVotes r.order r.purgeClock = e₁ at haccount hheight ⊢
  have helections := tryConcurrency_elections s e₁
  dsimp only
  generalize (s.tryConcurrency_ e₁).1 = s₁ at helections ⊢
  have herase (e' : Election env) (h : e'.account = e₁.account) :
      (s₁.erase_ e').elections = s.elections.del e.account := by
    rw [erase_, helections, h, haccount]
  have hmodify (e' : Election env) (h : e'.account = e₁.account) (hlevel : e'.height = e₁.height)
      (hblocks : e'.blocks = e₁.blocks) (hvotes : e'.votes = e₁.votes)
      (hconflicts : e'.conflicts = e₁.conflicts) :
      ∃ e'' : Election env, e''.account = e.account ∧ e''.height = e.height ∧
        e''.blocks = e₁.blocks ∧ e''.votes = e₁.votes ∧ e''.conflicts = e₁.conflicts ∧
        (s₁.modify e').elections = s.elections.put e.account e'' :=
    ⟨e', h.trans haccount, hlevel.trans hheight, hblocks, hvotes, hconflicts,
      by rw [modify, helections, h, haccount]⟩
  split
  · exact .inr (hmodify (resetElection e₁ r) rfl rfl rfl rfl rfl)
  unfold processTally
  split
  · exact .inl (herase _ rfl)
  split
  · unfold processSingle
    split
    · exact .inl (herase _ rfl)
    obtain ⟨hcount, hlevel, hblocks, hvotes, hconflicts⟩ := countSingle_kept e₁ r
    dsimp only
    split
    · exact .inl (herase _ hcount)
    · exact .inr (hmodify _ hcount hlevel hblocks hvotes hconflicts)
  split
  · exact .inr (hmodify _ rfl rfl rfl rfl rfl)
  · obtain ⟨hcount, hlevel, hblocks, hvotes, hconflicts⟩ :=
      countRound_kept e₁ (s₁.tally_ e₁ r.order r.tallyClock)
    unfold processFork
    dsimp only
    split
    · exact .inl (herase _ hcount)
    · exact .inr (hmodify _ hcount hlevel hblocks hvotes hconflicts)

theorem take_get (hseated : s.Seated) {action : ElectionAction}
    (h : (s.take action).elections.elections.get account = some e') :
    (s.elections.get account = some e' ∧ s.Idle account action) ∨
      ElectionChange s account action e' := by
  cases action with
  | add delay steady blocks => exact add_get hseated h
  | confirm steady rep timestamp signature block weight =>
      exact (confirm_get hseated h).imp_left fun hget => ⟨hget, fun _ _ => rfl, fun _ => rfl⟩
  | conflict steady rep timestampFirst timestampSecond signatureFirst signatureSecond blockFirst
      blockSecond weight =>
      exact (conflict_get hseated h).imp_left fun hget => ⟨hget, fun _ _ => rfl, fun _ => rfl⟩
  | weights now repWeights peers =>
      refine .inl ⟨?_, fun _ _ => rfl, fun _ => rfl⟩
      rw [← updateWeightInfo_elections s now repWeights peers]
      exact h
  | purge other order clock =>
      rw [take] at h
      cases hget : s.elections.get other with
      | none =>
          rw [hget] at h
          exact .inl ⟨h, fun _ _ => rfl, fun _ => rfl⟩
      | some e =>
          rw [hget] at h
          dsimp only at h
          rw [modify_get, (e.purgeOutdatedVotes_steady order clock).account, hseated _ _ hget] at h
          split at h
          · rename_i heq
            subst heq
            cases h
            exact .inr (.purged hget)
          · exact .inl ⟨h, fun _ _ => rfl, fun _ => rfl⟩
  | process other r =>
      by_cases heq : other = account
      · subst heq
        rw [take] at h
        cases hget : s.elections.get other with
        | none =>
            rw [hget] at h
            dsimp only at h
            rw [hget] at h
            cases h
        | some e =>
            rw [hget] at h
            exact .inr (.processed hget h)
      · refine .inl ⟨?_, fun _ _ => rfl, fun before => by rw [rounds, if_neg heq]⟩
        rw [take] at h
        cases hget : s.elections.get other with
        | none =>
            rw [hget] at h
            exact h
        | some e =>
            rw [hget] at h
            have hne : account ≠ e.account := by
              rw [hseated _ _ hget]
              exact Ne.symm heq
            rcases s.processElection_elections e r with hdel | ⟨e'', -, -, -, -, -, hput⟩
            · dsimp only at h
              rwa [hdel, Table.get_del, if_neg hne] at h
            · dsimp only at h
              rwa [hput, Table.get_put, if_neg hne] at h

theorem Seated.take (hseated : s.Seated) (action : ElectionAction) :
    (s.take action).elections.Seated := by
  intro account e' hget
  rcases take_get hseated hget with ⟨hold, -⟩ | hchange
  · exact hseated account e' hold
  · cases hchange with
    | fresh _ => exact (Election.addBlocks_steady _ _ _).account
    | added hold _ => exact (Election.addBlocks_steady _ _ _).account.trans (hseated _ _ hold)
    | voted hold _ =>
        exact ((Election.addRepVoteInfo_steady _ _ _).trans
          (Election.addBlock_steady _ _ _)).account.trans (hseated _ _ hold)
    | contradicted hold _ _ =>
        exact (((Election.addRepVoteInfo_steady _ _ _).trans (Election.addConflict_steady _ _ _)).trans
          (Election.addBlock_steady _ _ _)).account.trans (hseated _ _ hold)
    | revoted hold _ _ =>
        exact (((Election.delBlock_steady _ _).trans (Election.addRepVoteInfo_steady _ _ _)).trans
          (Election.addBlock_steady _ _ _)).account.trans (hseated _ _ hold)
    | reported hold _ =>
        exact (Election.addConflicting_steady _ _ _ _ _ _ _ _).account.trans (hseated _ _ hold)
    | reportedVoter hold _ _ =>
        exact ((Election.delBlock_steady _ _).trans
          (Election.addConflicting_steady _ _ _ _ _ _ _ _)).account.trans (hseated _ _ hold)
    | purged hold =>
        exact (Election.purgeOutdatedVotes_steady _ _ _).account.trans (hseated _ _ hold)
    | @processed e _ r hold hresult =>
        have haccount := hseated _ _ hold
        rcases s.processElection_elections e r with hdel | ⟨e'', haccount', -, -, -, -, hput⟩
        · rw [hdel, Table.get_del, haccount, if_pos rfl] at hresult
          cases hresult
        · rw [hput, Table.get_put, haccount, if_pos rfl] at hresult
          cases hresult
          exact haccount'.trans haccount

end Elections

end Parts

end Raicoin
