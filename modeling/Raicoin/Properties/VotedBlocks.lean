import Raicoin.Node.Election.StepSpec
import Raicoin.Node.Election.TallySpec
import Raicoin.Node.BlockProcessor.Replay
import Mathlib.Logic.Function.Basic

-- An election keeps the blocks that its votes name.
namespace Raicoin

open Lib

section Counting

variable {env : Env}

-- The reference counts of the blocks. A block without references may stay.
def ElectionBlocks.Counts (blocks : ElectionBlocks env) (n : BlockHash → Nat) : Prop :=
  ∀ hash, (∀ ref, blocks.get hash = some ref → ref.refs.toNat = n hash) ∧
    (blocks.get hash = none → n hash = 0)

theorem ElectionBlocks.Counts.put {blocks : ElectionBlocks env} {n n' : BlockHash → Nat}
    (h : blocks.Counts n) {block : Block} {refs : UInt32} (hrefs : refs.toNat = n' (env.hash block))
    (hothers : ∀ other, other ≠ env.hash block → n' other = n other) :
    (blocks.put block refs).Counts n' := by
  intro hash
  rw [get_put]
  by_cases hhash : hash = env.hash block
  · rw [if_pos hhash, hhash]
    exact ⟨fun ref href => by cases href; exact hrefs, fun hnone => by cases hnone⟩
  · rw [if_neg hhash, hothers hash hhash]
    exact h hash

namespace Election

variable {e : Election env} {n n' : BlockHash → Nat}

theorem addBlock_counts (h : e.blocks.Counts n) (steady : Int) (block : Block)
    (hmore : ∀ other, n' other = n other + if env.hash block = other then 1 else 0)
    (hfits : n' (env.hash block) < 2 ^ 32) : (e.addBlock steady block).blocks.Counts n' := by
  have hone : n' (env.hash block) = n (env.hash block) + 1 := by
    rw [hmore, if_pos rfl]
  have hothers (other : BlockHash) (hne : other ≠ env.hash block) : n' other = n other := by
    rw [hmore, if_neg (Ne.symm hne), Nat.add_zero]
  unfold addBlock
  cases hget : e.blocks.get (env.hash block) with
  | none =>
      have hzero := (h (env.hash block)).2 hget
      have hfirst : (e.blocks.put block 1).Counts n' := by
        refine h.put ?_ hothers
        rw [hone, hzero]
        rfl
      dsimp only
      split
      · exact hfirst
      · exact hfirst
  | some ref =>
      have hrefs := (h (env.hash block)).1 ref hget
      have hkept := ElectionBlocks.get_keyed hget
      refine h.put ?_ (fun other hne => hothers other (hkept ▸ hne))
      rw [hkept, hone, UInt32.toNat_add, hrefs]
      exact Nat.mod_eq_of_lt (hone ▸ hfits)

theorem delBlock_counts (h : e.blocks.Counts n) {hash : BlockHash}
    (hless : ∀ other, n' other + (if hash = other then 1 else 0) = n other) :
    (e.delBlock hash).blocks.Counts n' := by
  have hone : n' hash + 1 = n hash := by
    rw [← hless, if_pos rfl]
  have hothers (other : BlockHash) (hne : other ≠ hash) : n' other = n other := by
    rw [← hless, if_neg (Ne.symm hne), Nat.add_zero]
  unfold delBlock
  cases hget : e.blocks.get hash with
  | none => exact absurd ((h hash).2 hget) (by omega)
  | some ref =>
      have hrefs := (h hash).1 ref hget
      have hne : ref.refs ≠ 0 := fun hzero => by
        rw [hzero] at hrefs
        change 0 = n hash at hrefs
        omega
      have hle : (1 : UInt32) ≤ ref.refs := by
        rw [UInt32.le_iff_toNat_le, hrefs]
        change 1 ≤ n hash
        omega
      have hdone : (ref.refs - 1).toNat = n' hash := by
        rw [UInt32.toNat_sub_of_le _ _ hle, hrefs]
        change n hash - 1 = n' hash
        omega
      have hkept := ElectionBlocks.get_keyed hget
      have hput : (e.blocks.put ref.block (ref.refs - 1)).Counts n' :=
        h.put (hkept ▸ hdone) (fun other hne => hothers other (hkept ▸ hne))
      dsimp only
      rw [if_neg hne]
      split
      · -- Nothing refers to the block any more, and it is not the last one.
        rename_i hdrop
        intro other
        rw [ElectionBlocks.get_erase]
        by_cases hother : other = hash
        · rw [if_pos hother, hother, ← hdone, hdrop.1]
          exact ⟨fun ref' href => (by cases href), fun _ => rfl⟩
        · rw [if_neg hother]
          exact hput other
      · exact hput

-- How many last votes, and how many conflicting ones, name a block.
def lastVotes (e : Election env) (hash : BlockHash) : Nat :=
  e.votes.sum fun _ info => if info.lastVote.hash = hash then 1 else 0

def conflictVotes (e : Election env) (hash : BlockHash) : Nat :=
  e.conflicts.sum fun _ vote => if vote.hash = hash then 1 else 0

def references (e : Election env) (adds : BlockHash → Nat) (hash : BlockHash) : Nat :=
  adds hash + e.lastVotes hash + e.conflictVotes hash

-- The bookkeeping of an election to which blocks have been added `adds` times.
structure Kept (adds : BlockHash → Nat) (e : Election env) : Prop where
  counts : e.blocks.Counts (e.references adds)
  conflict_iff : ∀ rep info, e.votes.get rep = some info →
    (info.conflictFound = true ↔ ∃ vote, e.conflicts.get rep = some vote)
  conflict_voter : ∀ rep vote, e.conflicts.get rep = some vote → ∃ info, e.votes.get rep = some info

variable {adds : BlockHash → Nat} {rep : Account} {info : RepVoteInfo}

theorem lastVotes_new (info : RepVoteInfo) (hnone : e.votes.get rep = none) (hash : BlockHash) :
    (e.addRepVoteInfo_ rep info).lastVotes hash =
      e.lastVotes hash + if info.lastVote.hash = hash then 1 else 0 :=
  e.votes.sum_put_new _ info hnone

theorem lastVotes_changed (info : RepVoteInfo) {old : RepVoteInfo}
    (hold : e.votes.get rep = some old) (hash : BlockHash) : (e.addRepVoteInfo_ rep info).lastVotes hash +
      (if old.lastVote.hash = hash then 1 else 0) =
        e.lastVotes hash + if info.lastVote.hash = hash then 1 else 0 :=
  e.votes.sum_put _ info hold

theorem conflictVotes_new (vote : Vote) (hnone : e.conflicts.get rep = none) (hash : BlockHash) :
    (e.addConflict_ rep vote).conflictVotes hash =
      e.conflictVotes hash + if vote.hash = hash then 1 else 0 :=
  e.conflicts.sum_put_new _ vote hnone

theorem lastVotes_pos (h : e.votes.get rep = some info) : 0 < e.lastVotes info.lastVote.hash := by
  have hle := e.votes.le_sum
    (fun _ other => if other.lastVote.hash = info.lastVote.hash then 1 else 0) h
  rw [if_pos rfl] at hle
  exact hle

theorem conflictVotes_pos {vote : Vote} (h : e.conflicts.get rep = some vote) :
    0 < e.conflictVotes vote.hash := by
  have hle := e.conflicts.le_sum (fun _ other => if other.hash = vote.hash then 1 else 0) h
  rw [if_pos rfl] at hle
  exact hle

-- Operations on blocks do not change the votes.
theorem addBlock_references (steady : Int) (block : Block) :
    (e.addBlock steady block).references adds = e.references adds := by
  funext hash
  obtain ⟨hvotes, hconflicts⟩ := e.addBlock_votes steady block
  rw [references, lastVotes, conflictVotes, hvotes, hconflicts]
  rfl

theorem Kept.conflict_none (h : Kept adds e) (hinfo : e.votes.get rep = some info)
    (hclean : info.conflictFound = false) : e.conflicts.get rep = none := by
  cases hget : e.conflicts.get rep with
  | none => rfl
  | some vote =>
      have hfound := (h.conflict_iff rep info hinfo).mpr ⟨vote, hget⟩
      rw [hclean] at hfound
      cases hfound

theorem Kept.conflict_stranger (h : Kept adds e) (hnone : e.votes.get rep = none) :
    e.conflicts.get rep = none := by
  cases hget : e.conflicts.get rep with
  | none => rfl
  | some vote =>
      obtain ⟨info, hinfo⟩ := h.conflict_voter rep vote hget
      rw [hnone] at hinfo
      cases hinfo

-- A block is added for what the votes have come to name.
theorem kept_addBlock (hcounts : e.blocks.Counts n) (steady : Int) (block : Block)
    (hmore : ∀ hash, e.references adds hash = n hash + if env.hash block = hash then 1 else 0)
    (hfits : (e.addBlock steady block).references adds (env.hash block) < 2 ^ 32)
    (hiff : ∀ rep info, e.votes.get rep = some info →
      (info.conflictFound = true ↔ ∃ vote, e.conflicts.get rep = some vote))
    (hvoter : ∀ rep vote, e.conflicts.get rep = some vote → ∃ info, e.votes.get rep = some info) :
    (e.addBlock steady block).Kept adds := by
  obtain ⟨hvotes, hconflicts⟩ := e.addBlock_votes steady block
  rw [addBlock_references] at hfits
  constructor
  · rw [addBlock_references]
    exact addBlock_counts hcounts steady block hmore hfits
  · rw [hvotes, hconflicts]
    exact hiff
  · rw [hvotes, hconflicts]
    exact hvoter

theorem kept_create (account : Account) (height : Nat) (delay : UInt32) (steady : Int) :
    (create account height delay steady : Election env).Kept fun _ => 0 := by
  constructor
  · intro hash
    exact ⟨fun ref href => (by cases href), fun _ => rfl⟩
  · intro rep info hinfo
    cases hinfo
  · intro rep vote hvote
    cases hvote

-- `Add` brings blocks for which nobody has voted yet.
theorem Kept.addBlocks (h : Kept adds e) (steady : Int) (blocks : List Block)
    (hfits : ∀ hash, e.references adds hash +
      (blocks.filter fun b => env.hash b = hash).length < 2 ^ 32) :
    (blocks.foldl (fun e b => e.addBlock steady b) e).Kept
      fun hash => adds hash + (blocks.filter fun b => env.hash b = hash).length := by
  induction blocks generalizing e adds with
  | nil => exact h
  | cons b blocks ih =>
      have hcount (hash : BlockHash) : ((b :: blocks).filter fun b => env.hash b = hash).length =
          (if env.hash b = hash then 1 else 0) + (blocks.filter fun b => env.hash b = hash).length := by
        by_cases hb : env.hash b = hash
        · rw [List.filter_cons_of_pos (by simpa using hb), List.length_cons, if_pos hb, Nat.add_comm]
        · rw [List.filter_cons_of_neg (by simpa using hb), if_neg hb, Nat.zero_add]
      have hreferences (hash : BlockHash) :
          e.references (fun hash => adds hash + if env.hash b = hash then 1 else 0) hash =
            e.references adds hash + if env.hash b = hash then 1 else 0 := by
        unfold references
        dsimp only
        omega
      have hfirst : (e.addBlock steady b).Kept
          fun hash => adds hash + if env.hash b = hash then 1 else 0 := by
        refine kept_addBlock h.counts steady b hreferences ?_ h.conflict_iff h.conflict_voter
        have hb := hfits (env.hash b)
        rw [hcount, if_pos rfl] at hb
        rw [addBlock_references, hreferences, if_pos rfl]
        omega
      have hrest := ih hfirst (fun hash => by
        have hhash := hfits hash
        rw [hcount] at hhash
        rw [addBlock_references, hreferences]
        omega)
      rw [List.foldl_cons]
      have hsum : (fun hash => adds hash + ((b :: blocks).filter fun b => env.hash b = hash).length) =
          fun hash => adds hash + (if env.hash b = hash then 1 else 0) +
            (blocks.filter fun b => env.hash b = hash).length := by
        funext hash
        rw [hcount, Nat.add_assoc]
      rw [hsum]
      exact hrest

-- The conflicts stay matched when a representative without one gets a new vote.
private theorem conflict_iff_put (h : Kept adds e) (hnone : e.conflicts.get rep = none)
    (hclean : info.conflictFound = false) (other : Account) (found : RepVoteInfo)
    (hfound : (e.votes.put rep info).get other = some found) :
    found.conflictFound = true ↔ ∃ vote, e.conflicts.get other = some vote := by
  rw [Table.get_put] at hfound
  split at hfound
  · rename_i heq
    cases hfound
    rw [heq, hnone, hclean]
    simp
  · exact h.conflict_iff other found hfound

private theorem conflict_voter_put (h : Kept adds e) (other : Account) (vote : Vote)
    (hvote : e.conflicts.get other = some vote) :
    ∃ found, (e.votes.put rep info).get other = some found := by
  rw [Table.get_put]
  split
  · exact ⟨info, rfl⟩
  · exact h.conflict_voter other vote hvote

theorem Kept.voted (h : Kept adds e) (steady : Int) {block : Block}
    (hnone : e.votes.get rep = none) (hclean : info.conflictFound = false)
    (hhash : info.lastVote.hash = env.hash block)
    (hfits : ((e.addRepVoteInfo_ rep info).addBlock steady block).references adds
      (env.hash block) < 2 ^ 32) :
    ((e.addRepVoteInfo_ rep info).addBlock steady block).Kept adds := by
  refine kept_addBlock (e := e.addRepVoteInfo_ rep info) h.counts steady block (fun hash => ?_)
    hfits (conflict_iff_put h (h.conflict_stranger hnone) hclean) (conflict_voter_put h)
  have hvotes := lastVotes_new info hnone hash
  rw [hhash] at hvotes
  unfold references
  change adds hash + (e.addRepVoteInfo_ rep info).lastVotes hash + e.conflictVotes hash = _
  omega

-- The block of the vote that is given up goes first, which may drop it.
theorem Kept.withdrawn (h : Kept adds e) {old : RepVoteInfo} (hold : e.votes.get rep = some old) :
    (e.delBlock old.lastVote.hash).blocks.Counts fun hash =>
      e.references adds hash - if old.lastVote.hash = hash then 1 else 0 := by
  refine delBlock_counts h.counts fun other => ?_
  have hpos := lastVotes_pos hold
  by_cases hother : old.lastVote.hash = other
  · subst hother
    unfold references
    rw [if_pos rfl]
    omega
  · rw [if_neg hother]
    rfl

theorem Kept.revoted (h : Kept adds e) (steady : Int) {block : Block} {old : RepVoteInfo}
    (hold : e.votes.get rep = some old) (hnone : e.conflicts.get rep = none)
    (hclean : info.conflictFound = false) (hhash : info.lastVote.hash = env.hash block)
    (hfits : (((e.delBlock old.lastVote.hash).addRepVoteInfo_ rep info).addBlock steady
      block).references adds (env.hash block) < 2 ^ 32) :
    (((e.delBlock old.lastVote.hash).addRepVoteInfo_ rep info).addBlock steady block).Kept adds := by
  have hcounts := h.withdrawn hold
  rw [delBlock_eq] at hfits ⊢
  refine kept_addBlock (e := addRepVoteInfo_ { e with
    blocks := (e.delBlock old.lastVote.hash).blocks } rep info) hcounts steady block
    (fun hash => ?_) hfits (fun other found => conflict_iff_put (e := e) h hnone hclean other found)
    (fun other vote => conflict_voter_put (e := e) h other vote)
  have hvotes := lastVotes_changed info hold hash
  have hpos := lastVotes_pos hold
  rw [hhash] at hvotes
  unfold references
  change adds hash + (e.addRepVoteInfo_ rep info).lastVotes hash + e.conflictVotes hash = _
  by_cases hother : old.lastVote.hash = hash
  · subst hother
    rw [if_pos rfl] at hvotes ⊢
    omega
  · rw [if_neg hother] at hvotes ⊢
    omega

-- A vote in conflict is kept with the one it conflicts with.
private theorem conflict_iff_found (h : Kept adds e) (hfound : info.conflictFound = true)
    {vote : Vote} (other : Account) (found : RepVoteInfo)
    (hget : (e.votes.put rep info).get other = some found) :
    found.conflictFound = true ↔ ∃ vote', (e.conflicts.put rep vote).get other = some vote' := by
  rw [Table.get_put] at hget ⊢
  split at hget
  · rename_i heq
    cases hget
    rw [if_pos heq, hfound]
    simp
  · rename_i hne
    rw [if_neg hne]
    exact h.conflict_iff other found hget

private theorem conflict_voter_found (h : Kept adds e) {vote : Vote} (other : Account)
    (vote' : Vote) (hget : (e.conflicts.put rep vote).get other = some vote') :
    ∃ found, (e.votes.put rep info).get other = some found := by
  rw [Table.get_put] at hget ⊢
  split
  · exact ⟨info, rfl⟩
  · rename_i hne
    rw [if_neg hne] at hget
    exact h.conflict_voter other vote' hget

theorem Kept.contradicted (h : Kept adds e) (steady : Int) {block : Block} {old : RepVoteInfo}
    {vote : Vote} (hold : e.votes.get rep = some old) (hnone : e.conflicts.get rep = none)
    (hfound : info.conflictFound = true) (hsame : info.lastVote = old.lastVote)
    (hhash : vote.hash = env.hash block)
    (hfits : (((e.addRepVoteInfo_ rep info).addConflict_ rep vote).addBlock steady
      block).references adds (env.hash block) < 2 ^ 32) :
    (((e.addRepVoteInfo_ rep info).addConflict_ rep vote).addBlock steady block).Kept adds := by
  refine kept_addBlock (e := (e.addRepVoteInfo_ rep info).addConflict_ rep vote) h.counts steady
    block (fun hash => ?_) hfits (fun other found => conflict_iff_found h hfound other found)
    (fun other vote' => conflict_voter_found h other vote')
  have hvotes := lastVotes_changed info hold hash
  have hconflicts := conflictVotes_new vote hnone hash
  rw [hsame] at hvotes
  rw [hhash] at hconflicts
  unfold references
  change adds hash + (e.addRepVoteInfo_ rep info).lastVotes hash +
    (e.addConflict_ rep vote).conflictVotes hash = _
  omega

-- Two conflicting votes are reported: the last votes name the first block, and the
-- conflicts the second.
private theorem addConflicting_kept (h : Kept adds e) (steady : Int) {voteFirst voteSecond : Vote}
    {blockFirst blockSecond : Block} {weight : Amount} {blocks : ElectionBlocks env}
    {n : BlockHash → Nat} (hcounts : blocks.Counts n) (hnone : e.conflicts.get rep = none)
    (hmore : ∀ hash, adds hash + (e.addRepVoteInfo_ rep ⟨true, weight, voteFirst⟩).lastVotes hash +
      e.conflictVotes hash = n hash + if env.hash blockFirst = hash then 1 else 0)
    (hsecond : voteSecond.hash = env.hash blockSecond)
    (hfits : ∀ hash, (({ e with blocks } : Election env).addConflicting steady rep voteFirst
      voteSecond blockFirst blockSecond weight).references adds hash < 2 ^ 32) :
    (({ e with blocks } : Election env).addConflicting steady rep voteFirst voteSecond blockFirst
      blockSecond weight).Kept adds := by
  let e₁ := ({ e with blocks } : Election env).addRepVoteInfo_ rep ⟨true, weight, voteFirst⟩
  let e₂ := (e₁.addBlock steady blockFirst).addConflict_ rep voteSecond
  obtain ⟨hvotes, hconflicts⟩ := e₁.addBlock_votes steady blockFirst
  have hnone' : (e₁.addBlock steady blockFirst).conflicts.get rep = none := by
    rw [hconflicts]
    exact hnone
  have hreferences (hash : BlockHash) : e₂.references adds hash =
      e₁.references adds hash + if env.hash blockSecond = hash then 1 else 0 := by
    have hnew := conflictVotes_new voteSecond hnone' hash
    have hold := congrFun (@addBlock_references _ e₁ adds steady blockFirst) hash
    rw [hsecond] at hnew
    unfold references at hold ⊢
    change adds hash + (e₁.addBlock steady blockFirst).lastVotes hash + e₂.conflictVotes hash = _
    change e₂.conflictVotes hash = _ at hnew
    omega
  have hfits₂ (hash : BlockHash) : e₂.references adds hash < 2 ^ 32 := by
    have hlast := hfits hash
    change (e₂.addBlock steady blockSecond).references adds hash < 2 ^ 32 at hlast
    rwa [addBlock_references] at hlast
  have hfirst : (e₁.addBlock steady blockFirst).blocks.Counts (e₁.references adds) := by
    refine addBlock_counts hcounts steady blockFirst hmore ?_
    have hlast := hfits₂ (env.hash blockFirst)
    rw [hreferences] at hlast
    omega
  refine kept_addBlock (e := e₂) hfirst steady blockSecond hreferences
    (by rw [addBlock_references]; exact hfits₂ _) (fun other found hget => ?_)
    fun other vote hget => ?_
  · change (e₁.addBlock steady blockFirst).votes.get other = some found at hget
    change _ ↔ ∃ vote, ((e₁.addBlock steady blockFirst).conflicts.put rep voteSecond).get other = _
    rw [hvotes] at hget
    rw [hconflicts]
    exact conflict_iff_found h rfl other found hget
  · change ((e₁.addBlock steady blockFirst).conflicts.put rep voteSecond).get other = _ at hget
    change ∃ found, (e₁.addBlock steady blockFirst).votes.get other = some found
    rw [hconflicts] at hget
    rw [hvotes]
    exact conflict_voter_found h other vote hget

theorem Kept.reported (h : Kept adds e) (steady : Int) {voteFirst voteSecond : Vote}
    {blockFirst blockSecond : Block} {weight : Amount} (hnone : e.votes.get rep = none)
    (hfirst : voteFirst.hash = env.hash blockFirst) (hsecond : voteSecond.hash = env.hash blockSecond)
    (hfits : ∀ hash, (e.addConflicting steady rep voteFirst voteSecond blockFirst blockSecond
      weight).references adds hash < 2 ^ 32) :
    (e.addConflicting steady rep voteFirst voteSecond blockFirst blockSecond weight).Kept adds := by
  refine addConflicting_kept (e := e) h steady h.counts (h.conflict_stranger hnone) (fun hash => ?_)
    hsecond hfits
  have hvotes := lastVotes_new ⟨true, weight, voteFirst⟩ hnone hash
  rw [← hfirst]
  unfold references
  dsimp only at hvotes
  omega

theorem Kept.reportedVoter (h : Kept adds e) (steady : Int) {voteFirst voteSecond : Vote}
    {blockFirst blockSecond : Block} {weight : Amount} {old : RepVoteInfo}
    (hold : e.votes.get rep = some old) (hnone : e.conflicts.get rep = none)
    (hfirst : voteFirst.hash = env.hash blockFirst) (hsecond : voteSecond.hash = env.hash blockSecond)
    (hfits : ∀ hash, ((e.delBlock old.lastVote.hash).addConflicting steady rep voteFirst voteSecond
      blockFirst blockSecond weight).references adds hash < 2 ^ 32) :
    ((e.delBlock old.lastVote.hash).addConflicting steady rep voteFirst voteSecond blockFirst
      blockSecond weight).Kept adds := by
  have hcounts := h.withdrawn hold
  rw [delBlock_eq] at hfits ⊢
  refine addConflicting_kept (e := e) h steady hcounts hnone (fun hash => ?_) hsecond hfits
  have hvotes := lastVotes_changed ⟨true, weight, voteFirst⟩ hold hash
  have hpos := lastVotes_pos hold
  rw [← hfirst]
  unfold references
  dsimp only at hvotes
  by_cases hother : old.lastVote.hash = hash
  · subst hother
    rw [if_pos rfl] at hvotes ⊢
    omega
  · rw [if_neg hother] at hvotes ⊢
    omega

theorem Kept.purgeVote (h : Kept adds e) (hinfo : e.votes.get rep = some info)
    (hnone : e.conflicts.get rep = none) : (e.purgeVote (rep, info)).Kept adds := by
  unfold Election.purgeVote withVotes
  rw [delBlock_eq]
  constructor
  · refine delBlock_counts h.counts fun other => ?_
    unfold references
    have hother := e.votes.sum_del
      (fun _ vote => if vote.lastVote.hash = other then 1 else 0) hinfo
    change adds other + (e.votes.del rep).sum _ + e.conflictVotes other +
      (if info.lastVote.hash = other then 1 else 0) =
      adds other + e.votes.sum _ + e.conflictVotes other
    omega
  · intro other found hget
    dsimp only at hget
    rw [Table.get_del] at hget
    split at hget
    · cases hget
    · exact h.conflict_iff other found hget
  · intro other vote hget
    dsimp only at hget ⊢
    obtain ⟨found, hfound⟩ := h.conflict_voter other vote hget
    rw [Table.get_del]
    split
    · rename_i heq
      rw [heq, hnone] at hget
      cases hget
    · exact ⟨found, hfound⟩

theorem Kept.purged (h : Kept adds e) {order : List Account} (horder : e.votes.Enumerates order)
    (clock : Account → UInt64) : (e.purgeOutdatedVotes order clock).Kept adds := by
  rw [purgeOutdatedVotes_eq]
  have hsub : ((e.outdated order clock).map Prod.fst).Nodup :=
    ((List.filter_sublist.map Prod.fst).trans (e.votes.entriesIn_keys_sublist order)).nodup
      horder.nodup
  have hvotes : ∀ vote ∈ e.outdated order clock,
      e.votes.get vote.1 = some vote.2 ∧ e.conflicts.get vote.1 = none := by
    rintro ⟨rep, info⟩ hvote
    unfold outdated at hvote
    obtain ⟨hmem, hkeep⟩ := List.mem_filter.mp hvote
    refine ⟨(horder.mem_entriesIn rep info).mp hmem, ?_⟩
    simp only [Bool.and_eq_true, Bool.not_eq_true', Table.contains] at hkeep
    simpa using hkeep.2
  clear horder
  generalize e.outdated order clock = list at hsub hvotes
  induction list generalizing e with
  | nil => exact h
  | cons vote list ih =>
      obtain ⟨rep, info⟩ := vote
      obtain ⟨hinfo, hnone⟩ := hvotes (rep, info) (List.mem_cons_self ..)
      have hnodup := List.nodup_cons.mp hsub
      refine ih (h.purgeVote hinfo hnone) hnodup.2 fun other hother => ?_
      obtain ⟨hinfo', hnone'⟩ := hvotes other (List.mem_cons_of_mem _ hother)
      have hne : other.1 ≠ rep := fun heq =>
        hnodup.1 (List.mem_map.mpr ⟨other, hother, heq⟩)
      unfold Election.purgeVote withVotes
      rw [delBlock_eq]
      exact ⟨by rw [Table.get_del, if_neg hne, hinfo'], hnone'⟩

-- Only the blocks and the votes matter.
theorem Kept.of_same (h : Kept adds e) {e' : Election env} (hblocks : e'.blocks = e.blocks)
    (hvotes : e'.votes = e.votes) (hconflicts : e'.conflicts = e.conflicts) : e'.Kept adds := by
  constructor
  · rw [hblocks]
    unfold references lastVotes conflictVotes
    rw [hvotes, hconflicts]
    exact h.counts
  · rw [hvotes, hconflicts]
    exact h.conflict_iff
  · rw [hvotes, hconflicts]
    exact h.conflict_voter

theorem addBlocks_references (steady : Int) (blocks : List Block) :
    (blocks.foldl (fun e b => e.addBlock steady b) e).references adds = e.references adds := by
  induction blocks generalizing e with
  | nil => rfl
  | cons b blocks ih =>
      rw [List.foldl_cons, ih, addBlock_references]

end Election

section Runs

variable {s : Elections env} {e' : Election env} {account : Account} {action : ElectionAction}
  {history : ElectionHistory env}

-- No block of an election has 2 ^ 32 references at a time.
def Few (history : ElectionHistory env) (s : Elections env) : Prop :=
  ∀ account e, s.elections.get account = some e →
    ∀ hash, e.references (fun hash => addCalls account hash history) hash < 2 ^ 32

-- The step lemma: whatever an action makes of an election, its books are in order.
theorem ElectionChange.kept (hchange : ElectionChange s account action e') (hseated : s.Seated)
    (hfits : s.Fits action)
    (hbefore : ∀ e, s.elections.get account = some e →
      e.Kept fun hash => addCalls account hash history)
    (hfew : ∀ hash, e'.references (fun hash => addCalls account hash ((s, action) :: history)) hash <
      2 ^ 32) : e'.Kept fun hash => addCalls account hash ((s, action) :: history) := by
  cases hchange with
  | @fresh delay steady first rest hadd =>
      have hadds : (fun hash => addCalls account hash ((s, .add delay steady (first :: rest)) ::
          history)) = fun hash => 0 + ((first :: rest).filter fun b => env.hash b = hash).length := by
        funext hash
        rw [addCalls, hadd, Nat.zero_add]
      rw [hadds] at hfew ⊢
      refine (Election.kept_create account first.height delay steady).addBlocks steady _ fun hash => ?_
      have hhash := hfew hash
      rw [Election.addBlocks_references] at hhash
      unfold Election.references at hhash ⊢
      dsimp only at hhash ⊢
      omega
  | @added e delay steady blocks hget hadd =>
      have hadds : (fun hash => addCalls account hash ((s, .add delay steady blocks) :: history)) =
          fun hash => addCalls account hash history +
            (blocks.filter fun b => env.hash b = hash).length := by
        funext hash
        rw [addCalls, hadd]
      rw [hadds] at hfew ⊢
      refine (hbefore e hget).addBlocks steady blocks fun hash => ?_
      have hhash := hfew hash
      rw [Election.addBlocks_references] at hhash
      unfold Election.references at hhash ⊢
      dsimp only at hhash ⊢
      omega
  | voted hget hnone => exact (hbefore _ hget).voted _ hnone rfl rfl (hfew _)
  | contradicted hget hinfo hclean =>
      exact (hbefore _ hget).contradicted _ hinfo ((hbefore _ hget).conflict_none hinfo hclean) rfl
        rfl rfl (hfew _)
  | revoted hget hinfo hclean =>
      exact (hbefore _ hget).revoted _ hinfo ((hbefore _ hget).conflict_none hinfo hclean) rfl rfl
        (hfew _)
  | reported hget hnone => exact (hbefore _ hget).reported _ hnone rfl rfl hfew
  | reportedVoter hget hinfo hclean =>
      exact (hbefore _ hget).reportedVoter _ hinfo ((hbefore _ hget).conflict_none hinfo hclean) rfl
        rfl hfew
  | purged hget => exact (hbefore _ hget).purged (hfits _ hget) _
  | @processed e _ r hget hresult =>
      have hpurged := (hbefore _ hget).purged (hfits _ hget) r.purgeClock
      have haccount := hseated _ _ hget
      rcases s.processElection_elections e r with hdel | ⟨e'', -, -, hblocks, hvotes, hconflicts, hput⟩
      · rw [hdel, Table.get_del, haccount, if_pos rfl] at hresult
        cases hresult
      · rw [hput, Table.get_put, haccount, if_pos rfl] at hresult
        cases hresult
        exact hpurged.of_same hblocks hvotes hconflicts

-- The run lemma.
theorem run_kept (h : (electionMachine env).Run Few history s) : s.Seated ∧
    ∀ account e, s.elections.get account = some e →
      e.Kept fun hash => addCalls account hash history := by
  apply h.invariant (P := fun history s => s.Seated ∧ ∀ account e,
    s.elections.get account = some e → e.Kept fun hash => addCalls account hash history)
  · intro s hstart
    have hnone (account : Account) (e : Election env) : ¬s.elections.get account = some e := by
      rw [show s.elections = .empty from hstart, Table.get_empty]
      exact nofun
    exact ⟨fun account e hget => absurd hget (hnone account e),
      fun account e hget => absurd hget (hnone account e)⟩
  · intro history s action _ hfits hfew ⟨hseated, hkept⟩
    refine ⟨hseated.take action, fun account e' hget => ?_⟩
    rcases Elections.take_get hseated hget with ⟨hold, hidle⟩ | hchange
    · have hadds : (fun hash => addCalls account hash ((s, action) :: history)) =
          fun hash => addCalls account hash history := funext fun hash => hidle.addCalls hash history
      rw [hadds]
      exact hkept account e' hold
    · exact hchange.kept hseated hfits (hkept account) (hfew account e' hget)

-- What the bookkeeping promises of an election.
structure BlocksKept (adds : BlockHash → Nat) (e : Election env) : Prop where
  vote : ∀ rep info, e.votes.get rep = some info → ∃ ref, e.blocks.get info.lastVote.hash = some ref
  conflict : ∀ rep vote, e.conflicts.get rep = some vote →
    (∃ ref, e.blocks.get vote.hash = some ref) ∧
      ∃ info, e.votes.get rep = some info ∧ info.conflictFound = true
  refs : ∀ hash ref, e.blocks.get hash = some ref →
    ref.refs.toNat = adds hash + e.lastVotes hash + e.conflictVotes hash
  dropped : ∀ hash, e.blocks.get hash = none →
    adds hash + e.lastVotes hash + e.conflictVotes hash = 0

-- The calls that tell of lost blocks or votes.
def NodeCall.failure : NodeCall → Bool
  | .electionTally _ _ | .unexpected _ | .assertion => true
  | _ => false

namespace Election

variable {e : Election env} {adds : BlockHash → Nat} {rep : Account} {info : RepVoteInfo}

theorem Kept.block_of_references (h : e.Kept adds) {hash : BlockHash}
    (hpos : 0 < e.references adds hash) : ∃ ref, e.blocks.get hash = some ref := by
  cases hget : e.blocks.get hash with
  | none =>
      rw [(h.counts hash).2 hget] at hpos
      exact absurd hpos (Nat.lt_irrefl 0)
  | some ref => exact ⟨ref, rfl⟩

theorem Kept.block_of_vote (h : e.Kept adds) (hinfo : e.votes.get rep = some info) :
    ∃ ref, e.blocks.get info.lastVote.hash = some ref := by
  apply h.block_of_references
  have hpos := lastVotes_pos hinfo
  unfold references
  omega

theorem Kept.block_of_conflict (h : e.Kept adds) {vote : Vote}
    (hvote : e.conflicts.get rep = some vote) : ∃ ref, e.blocks.get vote.hash = some ref := by
  apply h.block_of_references
  have hpos := conflictVotes_pos hvote
  unfold references
  omega

theorem Kept.blocksKept (h : e.Kept adds) : BlocksKept adds e where
  vote _ _ hinfo := h.block_of_vote hinfo
  conflict rep vote hvote := by
    obtain ⟨info, hinfo⟩ := h.conflict_voter rep vote hvote
    exact ⟨h.block_of_conflict hvote, info, hinfo, (h.conflict_iff rep info hinfo).mpr ⟨vote, hvote⟩⟩
  refs hash ref href := (h.counts hash).1 ref href
  dropped hash hnone := (h.counts hash).2 hnone

-- The candidate that comes first has been voted for.
theorem Kept.tally_error (h : e.Kept adds) (s : Elections env) (order : List Account)
    (clock : Account → UInt64) : (s.tally_ e order clock).error = false := by
  rcases s.tally_cases e order clock with ⟨-, herror, -⟩ | ⟨hash, amount, hmem, -, -, herror, -⟩
  · exact herror
  · obtain ⟨rep, info, hinfo, rfl⟩ := s.mem_tallyVotes hmem
    obtain ⟨ref, href⟩ := h.block_of_vote hinfo
    rw [herror, href]
    rfl

theorem Kept.broadcastConfirms (h : e.Kept adds) (order : List Account) {call : NodeCall}
    (hcall : call ∈ e.broadcastConfirms_ order) : call.failure = false := by
  unfold broadcastConfirms_ at hcall
  obtain ⟨⟨rep, info⟩, hvote, hcall⟩ := List.mem_flatMap.mp hcall
  have hinfo := ((Table.mem_entriesIn _ _ _ _).mp hvote).2
  obtain ⟨ref, href⟩ := h.block_of_vote hinfo
  dsimp only at hcall
  split at hcall
  · cases hcall
  rw [getBlock_, href] at hcall
  dsimp only [Option.map_some] at hcall
  split at hcall
  · cases List.mem_singleton.mp hcall
    rfl
  · rename_i hfound
    obtain ⟨vote, hvote⟩ := (h.conflict_iff rep info hinfo).mp (by simpa using hfound)
    obtain ⟨other, hother⟩ := h.block_of_conflict hvote
    rw [hvote] at hcall
    dsimp only at hcall
    rw [getBlock_, hother] at hcall
    cases List.mem_singleton.mp hcall
    rfl

-- A block is not lost when another is added.
theorem addBlock_getBlock (e : Election env) (steady : Int) (block : Block) {hash : BlockHash}
    {ref : BlockReference} (h : e.blocks.get hash = some ref) :
    ∃ kept, (e.addBlock steady block).getBlock_ hash = some kept := by
  have hput (other : Block) (refs : UInt32) :
      ∃ kept, ((e.blocks.put other refs).get hash).map BlockReference.block = some kept := by
    rw [ElectionBlocks.get_put]
    split
    · exact ⟨other, rfl⟩
    · exact ⟨ref.block, by rw [h]; rfl⟩
  unfold getBlock_ addBlock
  split
  · dsimp only
    split
    · exact hput _ _
    · exact hput _ _
  · exact hput _ _

end Election

theorem processConfirm_calls (hkept : ∀ account e, s.elections.get account = some e →
      e.Kept fun hash => addCalls account hash history) {steady : Int} {rep : Account}
    {timestamp : UInt64} {signature : Signature} {block : Block} {weight : Amount} {call : NodeCall}
    (hcall : call ∈ (s.processConfirm steady rep timestamp signature block weight).calls) :
    call.failure = false := by
  unfold Elections.processConfirm at hcall
  cases hget : s.elections.get block.account with
  | none =>
      rw [hget] at hcall
      cases hcall
  | some e =>
      rw [hget] at hcall
      dsimp only at hcall
      split at hcall
      · cases hcall
      split at hcall
      · dsimp only at hcall
        split at hcall
        · cases List.mem_singleton.mp hcall
          rfl
        · cases hcall
      · rename_i info hinfo
        split at hcall
        · cases hcall
        split at hcall
        · obtain ⟨ref, href⟩ := (hkept _ _ hget).block_of_vote hinfo
          dsimp only at hcall
          split at hcall
          · obtain ⟨kept, hblock⟩ := Election.addBlock_getBlock ((e.addRepVoteInfo_ rep
              ⟨true, weight, info.lastVote⟩).addConflict_ rep ⟨timestamp, signature, env.hash block⟩)
              steady block href
            rw [Elections.addBlock_snd, hblock] at hcall
            cases List.mem_singleton.mp hcall
            rfl
          · cases hcall
        · split at hcall
          · cases hcall
          · dsimp only at hcall
            split at hcall
            · cases List.mem_singleton.mp hcall
              rfl
            · cases hcall

theorem processConflict_calls {steady : Int} {rep : Account} {timestampFirst timestampSecond : UInt64}
    {signatureFirst signatureSecond : Signature} {blockFirst blockSecond : Block} {weight : Amount}
    {call : NodeCall} (hcall : call ∈ (s.processConflict steady rep timestampFirst timestampSecond
      signatureFirst signatureSecond blockFirst blockSecond weight).calls) : call.failure = false := by
  have hreport (e : Election env) (voteFirst voteSecond : Vote)
      (hmem : call ∈ (s.addConflictingVotes e steady rep voteFirst voteSecond blockFirst blockSecond
        weight).calls) : call.failure = false := by
    unfold Elections.addConflictingVotes at hmem
    dsimp only at hmem
    split at hmem
    · cases List.mem_singleton.mp hmem
      rfl
    · cases hmem
  unfold Elections.processConflict at hcall
  split at hcall
  · cases hcall
  dsimp only at hcall
  by_cases hagree : checkConflict_ ⟨timestampFirst, signatureFirst, env.hash blockFirst⟩
      ⟨timestampSecond, signatureSecond, env.hash blockSecond⟩ = false
  · rw [if_pos hagree] at hcall
    cases hcall
  rw [if_neg hagree] at hcall
  cases hget : s.elections.get blockFirst.account with
  | none =>
      rw [hget] at hcall
      cases List.mem_singleton.mp hcall
      rfl
  | some e =>
      rw [hget] at hcall
      dsimp only at hcall
      split at hcall
      · cases List.mem_singleton.mp hcall
        rfl
      split at hcall
      · rcases List.mem_cons.mp hcall with rfl | hmem
        · rfl
        · exact hreport _ _ _ hmem
      · split at hcall
        · cases List.mem_singleton.mp hcall
          rfl
        · rcases List.mem_cons.mp hcall with rfl | hmem
          · rfl
          · exact hreport _ _ _ hmem

private theorem failure_forced {blocks : List Block} {call : NodeCall}
    (h : call ∈ blocks.map NodeCall.forceConfirmBlock ∨ call ∈ blocks.map NodeCall.forceAppendBlock) :
    call.failure = false := by
  rcases h with h | h
  · obtain ⟨block, -, rfl⟩ := List.mem_map.mp h
    rfl
  · obtain ⟨block, -, rfl⟩ := List.mem_map.mp h
    rfl

theorem processElection_calls {e : Election env} {adds : BlockHash → Nat} (hkept : e.Kept adds)
    {r : Readings} (horder : e.votes.Enumerates r.order) {call : NodeCall}
    (hcall : call ∈ (s.processElection e r).calls) : call.failure = false := by
  have hpurged := hkept.purged horder r.purgeClock
  unfold Elections.processElection at hcall
  generalize e.purgeOutdatedVotes r.order r.purgeClock = e₁ at hpurged hcall
  dsimp only at hcall
  have herror := hpurged.tally_error (s.tryConcurrency_ e₁).1 r.order r.tallyClock
  split at hcall
  · cases hcall
  unfold Elections.processTally at hcall
  rw [herror, if_neg (by decide)] at hcall
  split at hcall
  · unfold Elections.processSingle at hcall
    dsimp only at hcall
    split at hcall
    · exact failure_forced (.inl hcall)
    · split at hcall
      · cases List.mem_singleton.mp hcall
        rfl
      · cases hcall
  split at hcall
  · rcases List.mem_append.mp hcall with hmem | hmem
    · exact hpurged.broadcastConfirms r.order hmem
    · split at hmem
      · cases List.mem_singleton.mp hmem
        rfl
      · cases hmem
  · unfold Elections.processFork at hcall
    dsimp only at hcall
    split at hcall
    · exact failure_forced (.inl hcall)
    · dsimp only at hcall
      split at hcall
      · exact failure_forced (.inr hcall)
      · cases hcall

-- In every run whose elections stay below 2 ^ 32 references for a block, the blocks that
-- are voted for are there, no tally fails and no vote to broadcast is missed.
theorem voted_blocks_kept (h : (electionMachine env).Run Few history s) :
    (∀ account e, s.elections.get account = some e →
      BlocksKept (fun hash => addCalls account hash history) e ∧
        ∀ order clock, (s.tally_ e order clock).error = false) ∧
    ∀ action, s.Fits action → ∀ call ∈ (s.take action).calls, call.failure = false := by
  obtain ⟨-, hkept⟩ := run_kept h
  refine ⟨fun account e hget => ⟨(hkept account e hget).blocksKept,
    fun order clock => (hkept account e hget).tally_error s order clock⟩, ?_⟩
  intro action hfits call hcall
  cases action with
  | add delay steady blocks => cases hcall
  | confirm => exact processConfirm_calls hkept hcall
  | conflict => exact processConflict_calls hcall
  | weights => cases hcall
  | purge account order clock =>
      rw [Elections.take] at hcall
      split at hcall <;> cases hcall
  | process account r =>
      rw [Elections.take] at hcall
      cases hget : s.elections.get account with
      | none =>
          rw [hget] at hcall
          cases hcall
      | some e =>
          rw [hget] at hcall
          exact processElection_calls (hkept account e hget) (hfits e hget) hcall

-- A bound on the references that is easy to see: all blocks added, and all votes.
def addedBlocks : ElectionHistory env → Nat
  | [] => 0
  | (_, .add _ _ blocks) :: before => blocks.length + addedBlocks before
  | _ :: before => addedBlocks before

theorem addCalls_le (hash : BlockHash) : addCalls account hash history ≤ addedBlocks history := by
  induction history with
  | nil => exact Nat.le_refl 0
  | cons entry before ih =>
      obtain ⟨s, action⟩ := entry
      cases action with
      | add delay steady blocks =>
          have hcount := List.length_filter_le (fun b => env.hash b = hash) blocks
          rw [addCalls, addedBlocks]
          cases s.addition account blocks with
          | none => exact Nat.le_trans ih (Nat.le_add_left _ _)
          | existing => dsimp only; omega
          | fresh => dsimp only; omega
      | confirm => exact ih
      | conflict => exact ih
      | weights => exact ih
      | purge => exact ih
      | process => exact ih

private theorem sum_le_card {ν : Type} (t : Table Account ν) {f : Account → ν → Nat}
    (hf : ∀ rep v, f rep v ≤ 1) : t.sum f ≤ t.keys.card := by
  rw [Finset.card_eq_sum_ones]
  apply Finset.sum_le_sum
  intro rep hrep
  obtain ⟨v, hget⟩ := (Table.mem_keys t rep).mp hrep
  rw [hget]
  exact hf rep v

theorem few_of_sizes (h : ∀ account e, s.elections.get account = some e →
    addedBlocks history + e.votes.keys.card + e.conflicts.keys.card < 2 ^ 32) : Few history s := by
  intro account e hget hash
  have hsize := h account e hget
  have hadds : addCalls account hash history ≤ addedBlocks history := addCalls_le hash
  have hlast : e.lastVotes hash ≤ e.votes.keys.card :=
    sum_le_card e.votes fun _ info => by split <;> omega
  have hconflict : e.conflictVotes hash ≤ e.conflicts.keys.card :=
    sum_le_card e.conflicts fun _ vote => by split <;> omega
  unfold Election.references
  dsimp only
  omega

end Runs

end Counting

-- One block, added again and again.
section Repeated

open Elections

def sampleBlock : Block := genesisBlock .test

def sampleStart : Elections sampleEnv where
  lastUpdate := 0
  onlineReps := ∅
  weightTotal := 0
  weightOnline := 0
  weights := .empty
  elections := .empty
  concurrency := 16
  actives := ∅
  forks := ∅

def sampleAdd : ElectionAction := .add 1 0 [sampleBlock]

-- What an `Add` of the block does to an election of its account and height.
theorem sampleAdd_existing {s : Elections sampleEnv} {e : Election sampleEnv}
    (hget : s.elections.get sampleBlock.account = some e) (haccount : e.account = sampleBlock.account)
    (hheight : e.height = sampleBlock.height) :
    s.addition sampleBlock.account [sampleBlock] = .existing ∧
      (s.take sampleAdd).elections.elections.get sampleBlock.account =
        some (e.addBlock 0 sampleBlock) := by
  have hsame : ¬∃ b ∈ [sampleBlock], b.account ≠ sampleBlock.account ∨
      b.height ≠ sampleBlock.height := by simp
  constructor
  · rw [addition, if_neg (by rw [not_or]; exact ⟨hsame, fun hne => hne rfl⟩), hget]
    dsimp only
    rw [if_neg (by omega), if_neg (by omega)]
  · have hadded := addBlocks_get [sampleBlock] s e 0 (by rw [haccount, hget]) sampleBlock.account
    rw [haccount, if_pos rfl] at hadded
    change (s.add 1 0 [sampleBlock]).elections.get _ = _
    unfold add
    dsimp only
    rw [if_neg hsame, hget]
    dsimp only
    rw [if_neg (by omega), if_neg (by omega)]
    exact hadded

theorem sampleAdd_fresh : sampleStart.addition sampleBlock.account [sampleBlock] = .fresh ∧
    (sampleStart.take sampleAdd).elections.elections.get sampleBlock.account =
      some ((Election.create sampleBlock.account sampleBlock.height 1 0).addBlock 0 sampleBlock) := by
  have hsame : ¬∃ b ∈ [sampleBlock], b.account ≠ sampleBlock.account ∨
      b.height ≠ sampleBlock.height := by simp
  have hnone : sampleStart.elections.get sampleBlock.account = none := Table.get_empty _
  constructor
  · rw [addition, if_neg (by rw [not_or]; exact ⟨hsame, fun hne => hne rfl⟩), hnone]
  · change (sampleStart.add 1 0 [sampleBlock]).elections.get _ = _
    unfold add
    dsimp only
    rw [if_neg hsame, hnone]
    dsimp only
    rw [start_get, create_account, if_pos rfl]
    rfl

def contestedRival : Block :=
  sampleTx .send 512 1 TEST_EPOCH_TIMESTAMP 0 (genesisPublicKey .test) 0 0 0 1

-- The first representative changes its vote to the rival, the second contradicts itself.
def contestedActions : List ElectionAction :=
  [sampleAdd, .confirm 0 1 1600000000 0 sampleBlock 60, .confirm 0 2 1600000000 0 sampleBlock 40,
    .confirm 0 1 1600000020 0 contestedRival 60, .confirm 0 2 1600000005 0 contestedRival 40]

def contestedHistory : ElectionHistory sampleEnv :=
  ((electionMachine sampleEnv).exec sampleStart contestedActions).1

def contested : Elections sampleEnv :=
  ((electionMachine sampleEnv).exec sampleStart contestedActions).2

private def votersOf (s : Elections sampleEnv) : Nat :=
  ((s.elections.get sampleBlock.account).map fun e =>
    e.votes.keys.card + e.conflicts.keys.card).getD 0

private theorem few_sample {history : ElectionHistory sampleEnv} {s : Elections sampleEnv}
    (hkeys : s.elections.keys ⊆ [sampleBlock.account].toFinset)
    (hsize : addedBlocks history + votersOf s < 2 ^ 32) : Few history s := by
  apply few_of_sizes
  intro account e hget
  have hmem := hkeys ((Table.mem_keys _ _).mpr ⟨e, hget⟩)
  obtain rfl := List.mem_singleton.mp (List.mem_toFinset.mp hmem)
  rw [votersOf, hget] at hsize
  change _ + (e.votes.keys.card + e.conflicts.keys.card) < _ at hsize
  omega

private theorem contested_run : (electionMachine sampleEnv).Run Few contestedHistory contested := by
  refine Machine.exec_run rfl ?_ ?_
  · intro action hmem s
    simp only [contestedActions, List.mem_cons, List.not_mem_nil, or_false] at hmem
    rcases hmem with rfl | rfl | rfl | rfl | rfl <;> trivial
  · have hkeys : ∀ n ≤ contestedActions.length, ((electionMachine sampleEnv).exec sampleStart
        (contestedActions.take n)).2.elections.keys ⊆ [sampleBlock.account].toFinset := by
      decide +kernel
    have hsize : ∀ n ≤ contestedActions.length,
        addedBlocks ((electionMachine sampleEnv).exec sampleStart (contestedActions.take n)).1 +
          votersOf ((electionMachine sampleEnv).exec sampleStart (contestedActions.take n)).2 <
            2 ^ 32 := by
      decide +kernel
    exact fun n hn => few_sample (hkeys n hn) (hsize n hn)

-- The changed vote and the contradiction name the rival, which has a reference for each.
theorem voted_blocks_kept_sample : ∃ e, contested.elections.get sampleBlock.account = some e ∧
    (e.votes.get 1).map (·.lastVote.hash) = some (sampleEnv.hash contestedRival) ∧
    (e.votes.get 2).map (·.lastVote.hash) = some (sampleEnv.hash sampleBlock) ∧
    (e.conflicts.get 2).map (·.hash) = some (sampleEnv.hash contestedRival) ∧
    (e.blocks.get (sampleEnv.hash contestedRival)).map (·.refs) = some 2 ∧
    BlocksKept (fun hash => addCalls sampleBlock.account hash contestedHistory) e := by
  have hvoted : (contested.elections.get sampleBlock.account).map (fun e =>
      ((e.votes.get 1).map (·.lastVote.hash), (e.votes.get 2).map (·.lastVote.hash),
        (e.conflicts.get 2).map (·.hash), (e.blocks.get (sampleEnv.hash contestedRival)).map (·.refs))) =
      some (some (sampleEnv.hash contestedRival), some (sampleEnv.hash sampleBlock),
        some (sampleEnv.hash contestedRival), some 2) := by
    decide +kernel
  obtain ⟨e, hget, hfields⟩ := Option.map_eq_some_iff.mp hvoted
  simp only [Prod.mk.injEq] at hfields
  obtain ⟨hfirst, hsecond, hconflict, hrefs⟩ := hfields
  exact ⟨e, hget, hfirst, hsecond, hconflict, hrefs, ((voted_blocks_kept contested_run).1 _ e hget).1⟩

theorem adds_reached (n : Nat) : ∃ (history : ElectionHistory sampleEnv) (s : Elections sampleEnv)
    (e : Election sampleEnv), (electionMachine sampleEnv).Run (fun _ _ => True) history s ∧
      s.elections.get sampleBlock.account = some e ∧ e.account = sampleBlock.account ∧
      e.height = sampleBlock.height ∧
      e.blocks.get (sampleEnv.hash sampleBlock) = some ⟨UInt32.ofNat (n + 1), sampleBlock⟩ ∧
      addCalls sampleBlock.account (sampleEnv.hash sampleBlock) history = n + 1 := by
  induction n with
  | zero =>
      obtain ⟨haddition, hget⟩ := sampleAdd_fresh
      have hstart : (electionMachine sampleEnv).Run (fun _ _ => True) [] sampleStart :=
        .start rfl trivial
      have hrun := hstart.step (show (electionMachine sampleEnv).fits sampleStart sampleAdd from
        trivial) trivial
      have hsteady := Election.addBlock_steady (Election.create sampleBlock.account
        sampleBlock.height 1 0 : Election sampleEnv) 0 sampleBlock
      refine ⟨_, _, _, hrun, hget, hsteady.account, hsteady.height, ?_, ?_⟩
      · unfold Election.addBlock
        rw [show (Election.create _ _ 1 0 : Election sampleEnv).blocks.get _ = none from
          ElectionBlocks.get_empty _]
        dsimp only
        split
        · exact (ElectionBlocks.get_put _ _ _ _).trans (if_pos rfl)
        · exact (ElectionBlocks.get_put _ _ _ _).trans (if_pos rfl)
      · rw [sampleAdd, addCalls, haddition]
        simp
  | succ n ih =>
      obtain ⟨history, s, e, hrun, hget, haccount, hheight, hblock, hadds⟩ := ih
      obtain ⟨haddition, hget'⟩ := sampleAdd_existing hget haccount hheight
      have hsteady := e.addBlock_steady 0 sampleBlock
      have hnext := hrun.step (show (electionMachine sampleEnv).fits s sampleAdd from trivial)
        trivial
      refine ⟨_, _, _, hnext, hget', hsteady.account.trans haccount,
        hsteady.height.trans hheight, ?_, ?_⟩
      · unfold Election.addBlock
        rw [hblock]
        refine (ElectionBlocks.get_put _ _ _ _).trans ?_
        rw [if_pos rfl]
        simp
      · rw [sampleAdd, addCalls, haddition]
        simp [hadds]

-- After 2 ^ 32 of them the count of the references is zero.
theorem adds_wrap : ∃ (history : ElectionHistory sampleEnv) (s : Elections sampleEnv)
    (e : Election sampleEnv), (electionMachine sampleEnv).Run (fun _ _ => True) history s ∧
      s.elections.get sampleBlock.account = some e ∧
      ¬BlocksKept (fun hash => addCalls sampleBlock.account hash history) e := by
  obtain ⟨history, s, e, hrun, hget, -, -, hblock, hadds⟩ := adds_reached (2 ^ 32 - 1)
  refine ⟨history, s, e, hrun, hget, fun hkept => ?_⟩
  have hrefs := hkept.refs _ _ hblock
  dsimp only at hrefs
  rw [hadds, show (UInt32.ofNat (2 ^ 32 - 1 + 1)).toNat = 0 by decide] at hrefs
  omega

end Repeated

end Raicoin
