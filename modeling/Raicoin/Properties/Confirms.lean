import Raicoin.Node.ConfirmManager
import Raicoin.Node.Election.StepSpec

-- A representative gives no two votes that could be held against it.
namespace Raicoin

open Lib

section Votes

variable {history : ConfirmHistory} {s : ConfirmState} {account : Account} {height : Nat}

-- The vote is the one that is remembered, or older by the interval.
def ConfirmInfo.CoversVote (info : ConfirmInfo) (vote : OwnVote) : Prop :=
  (vote.hash = info.hash ∧ vote.timestamp = info.timestamp) ∨
    vote.timestamp.toNat + MIN_CONFIRM_INTERVAL ≤ info.timestamp.toNat

def ConfirmInfo.Covers (info : ConfirmInfo) (votes : List OwnVote) (account : Account)
    (height : Nat) : Prop :=
  ∀ vote ∈ votes, vote.account = account → vote.height = height → info.CoversVote vote

-- The votes for a place that has no entry are covered by what `Age` has dropped of it.
structure ConfirmsKept (history : ConfirmHistory) (s : ConfirmState) : Prop where
  known : ∀ account height info, s.manager.confirms.get (account, height) = some info →
    info.Covers (votesOf history) account height ∧
      info.timestamp.toNat ≤
        s.clock.toNat + MIN_CONFIRM_INTERVAL * (votesOf history).length
  forgotten : ∀ account height, s.manager.confirms.get (account, height) = none →
    ∀ vote ∈ votesOf history, vote.account = account → vote.height = height →
      ∃ entry ∈ dropped history account height, entry.1.CoversVote vote
  aged : ∀ account height, ∀ entry ∈ dropped history account height,
    entry.1.timestamp.toNat + MIN_CONFIRM_INTERVAL ≤ entry.2.toNat
  waiting : ∀ id call, s.calls.get id = some call → call.now ≤ s.clock
  agree : ∀ first ∈ votesOf history, ∀ second ∈ votesOf history,
    first.account = second.account → first.height = second.height → first.Agrees second

theorem OwnVote.Agrees.symm {first second : OwnVote} (h : first.Agrees second) :
    second.Agrees first := by
  rcases h with ⟨hhash, htime⟩ | hfirst | hsecond
  · exact .inl ⟨hhash.symm, htime.symm⟩
  · exact .inr (.inr hfirst)
  · exact .inr (.inl hsecond)

private theorem interval_toNat : (UInt64.ofNat MIN_CONFIRM_INTERVAL).toNat = MIN_CONFIRM_INTERVAL := by
  decide

private theorem add_interval {t : UInt64} (h : t.toNat + MIN_CONFIRM_INTERVAL < 2 ^ 64) :
    (t + UInt64.ofNat MIN_CONFIRM_INTERVAL).toNat = t.toNat + MIN_CONFIRM_INTERVAL := by
  rw [UInt64.toNat_add, interval_toNat, Nat.mod_eq_of_lt h]

theorem dropped_cons (entry : ConfirmState × ConfirmAction) (history : ConfirmHistory)
    (account : Account) (height : Nat) :
    dropped (entry :: history) account height =
      (entry.2.drops entry.1.manager account height).toList ++ dropped history account height := by
  obtain ⟨s, action⟩ := entry
  rw [dropped, List.filterMap_cons]
  dsimp only
  cases action.drops s.manager account height with
  | none => rfl
  | some old => rfl

theorem dropped_grows {entry : ConfirmState × ConfirmAction} {old : ConfirmInfo × UInt64}
    (h : old ∈ dropped history account height) :
    old ∈ dropped (entry :: history) account height := by
  rw [dropped_cons]
  exact List.mem_append_right _ h

theorem votesOf_getTimestamp {id : Nat} {call : ConfirmCall} (hcall : s.calls.get id = some call) :
    votesOf ((s, .getTimestamp id) :: history) = call.vote s.manager :: votesOf history := by
  rw [votesOf, hcall]

-- A vote that covers the earlier ones is all that has to be remembered.
theorem ConfirmsKept.voted (h : ConfirmsKept history s) {id : Nat} {hash : BlockHash}
    {timestamp : UInt64}
    (hcovers : ConfirmInfo.Covers ⟨timestamp, hash⟩ (votesOf history) account height)
    (hbound : timestamp.toNat ≤
      s.clock.toNat + (MIN_CONFIRM_INTERVAL * (votesOf history).length + MIN_CONFIRM_INTERVAL))
    (hvotes : votesOf ((s, .getTimestamp id) :: history) =
      ⟨account, height, timestamp, hash⟩ :: votesOf history) :
    ConfirmsKept ((s, .getTimestamp id) :: history)
      ⟨⟨s.manager.confirms.put (account, height) ⟨timestamp, hash⟩⟩, s.clock, s.calls.del id⟩ := by
  have hnew : ∀ vote ∈ votesOf history, vote.account = account → vote.height = height →
      OwnVote.Agrees ⟨account, height, timestamp, hash⟩ vote := by
    intro vote hmem haccount hheight
    rcases hcovers vote hmem haccount hheight with ⟨hhash, htime⟩ | hold
    · exact .inl ⟨hhash.symm, htime.symm⟩
    · exact .inr (.inr hold)
  constructor
  · intro other level info hget
    rw [Table.get_put] at hget
    rw [hvotes, List.length_cons, Nat.mul_succ]
    split at hget
    · rename_i heq
      cases hget
      cases heq
      refine ⟨?_, hbound⟩
      intro vote hmem haccount hheight
      rcases List.mem_cons.mp hmem with rfl | hmem
      · exact .inl ⟨rfl, rfl⟩
      · exact hcovers vote hmem haccount hheight
    · rename_i hne
      obtain ⟨hold, hlimit⟩ := h.known other level info hget
      refine ⟨?_, by dsimp only; omega⟩
      intro vote hmem haccount hheight
      rcases List.mem_cons.mp hmem with rfl | hmem
      · exact absurd (Prod.ext haccount.symm hheight.symm) hne
      · exact hold vote hmem haccount hheight
  · intro other level hget vote hmem haccount hheight
    rw [Table.get_put] at hget
    split at hget
    · cases hget
    · rename_i hne
      rw [hvotes] at hmem
      rcases List.mem_cons.mp hmem with rfl | hmem
      · exact absurd (Prod.ext haccount.symm hheight.symm) hne
      · obtain ⟨old, hdropped, hle⟩ := h.forgotten other level hget vote hmem haccount hheight
        exact ⟨old, dropped_grows hdropped, hle⟩
  · exact h.aged
  · intro other call hget
    dsimp only at hget
    rw [Table.get_del] at hget
    split at hget
    · cases hget
    · exact h.waiting other call hget
  · intro first hfirst second hsecond haccount hheight
    rw [hvotes] at hfirst hsecond
    rcases List.mem_cons.mp hfirst with rfl | hfirst
    · rcases List.mem_cons.mp hsecond with rfl | hsecond
      · exact .inl ⟨rfl, rfl⟩
      · exact hnew second hsecond haccount.symm hheight.symm
    · rcases List.mem_cons.mp hsecond with rfl | hsecond
      · exact (hnew first hfirst haccount hheight).symm
      · exact h.agree first hfirst second hsecond haccount hheight

-- What `Age` has forgotten does not stand against the first vote of a call that is not overtaken.
theorem ConfirmsKept.covers_first (h : ConfirmsKept history s) {call : ConfirmCall}
    (hnone : s.manager.confirms.get (call.account, call.height) = none)
    (hprompt : ¬call.Overtaken history) :
    ConfirmInfo.Covers ⟨call.now, call.hash⟩ (votesOf history) call.account call.height := by
  intro vote hmem haccount hheight
  obtain ⟨old, hdropped, hcovers⟩ := h.forgotten _ _ hnone vote hmem haccount hheight
  have hage := h.aged _ _ old hdropped
  by_cases hsame : old.1 = ⟨call.now, call.hash⟩
  · rwa [hsame] at hcovers
  have hold : old.1.timestamp.toNat + MIN_CONFIRM_INTERVAL ≤ call.now.toNat := by
    by_cases hlate : call.now < old.2
    · exact Nat.not_lt.mp fun hshort => hprompt ⟨old, hdropped, hlate, hshort, hsame⟩
    · have hreading := UInt64.le_iff_toNat_le.mp (UInt64.not_lt.mp hlate)
      omega
  right
  dsimp only
  rcases hcovers with ⟨-, htime⟩ | hlimit
  · rwa [htime]
  · omega

theorem ConfirmsKept.getTimestamp (h : ConfirmsKept history s) {id : Nat} {call : ConfirmCall}
    (hcall : s.calls.get id = some call)
    (hprompt : s.manager.confirms.get (call.account, call.height) = none →
      ¬call.Overtaken history)
    (hroom : s.clock.toNat +
      (MIN_CONFIRM_INTERVAL * (votesOf history).length + MIN_CONFIRM_INTERVAL) < 2 ^ 64) :
    ConfirmsKept ((s, .getTimestamp id) :: history) (s.take (.getTimestamp id)) := by
  have hle : call.now.toNat ≤ s.clock.toNat := UInt64.le_iff_toNat_le.mp (h.waiting id call hcall)
  have hcases := s.manager.getTimestamp_cases call.now call.account call.height call.hash
  have hvotes : votesOf ((s, .getTimestamp id) :: history) = _ := votesOf_getTimestamp hcall
  rw [ConfirmCall.vote] at hvotes
  simp only [ConfirmState.take, hcall]
  generalize s.manager.getTimestamp call.now call.account call.height call.hash = result
    at hcases hvotes ⊢
  cases hcases with
  | first hnone =>
      exact h.voted (h.covers_first hnone (hprompt hnone)) (by omega) hvotes
  | @later info hget hlater =>
      obtain ⟨hcovers, hbound⟩ := h.known call.account call.height info hget
      have hsum : info.timestamp.toNat + MIN_CONFIRM_INTERVAL ≤ call.now.toNat := by
        have hlater' := UInt64.le_iff_toNat_le.mp hlater
        rwa [add_interval (by omega)] at hlater'
      refine h.voted ?_ (by omega) hvotes
      intro vote hmem haccount hheight
      right
      change vote.timestamp.toNat + MIN_CONFIRM_INTERVAL ≤ call.now.toNat
      rcases hcovers vote hmem haccount hheight with ⟨-, htime⟩ | hold
      · rw [htime]
        exact hsum
      · omega
  | @same info hget hsame =>
      obtain ⟨hcovers, hbound⟩ := h.known call.account call.height info hget
      have hput : s.manager.confirms.put (call.account, call.height) ⟨info.timestamp, call.hash⟩ =
          s.manager.confirms := by
        apply Table.put_of_get
        rw [hget, ← hsame]
      have hkept := h.voted (by rw [← hsame]; exact hcovers) (by dsimp only; omega) hvotes
      rwa [hput] at hkept
  | @pushed info hget hearly =>
      obtain ⟨hcovers, hbound⟩ := h.known call.account call.height info hget
      have hsum := add_interval (t := info.timestamp) (by omega)
      refine h.voted ?_ (by omega) hvotes
      intro vote hmem haccount hheight
      right
      dsimp only
      rw [hsum]
      rcases hcovers vote hmem haccount hheight with ⟨-, htime⟩ | hold
      · rw [htime]
      · omega

-- A reading changes nothing but the clock and the calls on their way.
theorem ConfirmsKept.read (h : ConfirmsKept history s) {id : Nat} {call : ConfirmCall}
    (hclock : s.clock ≤ call.now) :
    ConfirmsKept ((s, .read id call) :: history) (s.take (.read id call)) := by
  have hle : s.clock.toNat ≤ call.now.toNat := UInt64.le_iff_toNat_le.mp hclock
  constructor
  · intro account height info hget
    obtain ⟨hcovers, hbound⟩ := h.known account height info hget
    refine ⟨hcovers, ?_⟩
    change _ ≤ call.now.toNat + MIN_CONFIRM_INTERVAL * (votesOf history).length
    omega
  · intro account height hget vote hmem haccount hheight
    obtain ⟨old, hdropped, hlimit⟩ := h.forgotten account height hget vote hmem haccount hheight
    exact ⟨old, dropped_grows hdropped, hlimit⟩
  · exact h.aged
  · intro other waiting hget
    change (s.calls.put id call).get other = some waiting at hget
    change waiting.now ≤ call.now
    rw [Table.get_put] at hget
    split at hget
    · cases hget
      exact UInt64.le_refl _
    · exact UInt64.le_trans (h.waiting other waiting hget) hclock
  · exact h.agree

-- What `Age` forgets is older than the interval.
theorem ConfirmsKept.age (h : ConfirmsKept history s) {now : UInt64} (hclock : s.clock ≤ now)
    (hnow : MIN_CONFIRM_INTERVAL ≤ now.toNat) :
    ConfirmsKept ((s, .age now) :: history) (s.take (.age now)) := by
  have hle : s.clock.toNat ≤ now.toNat := UInt64.le_iff_toNat_le.mp hclock
  have hcutoff : (now - UInt64.ofNat MIN_CONFIRM_INTERVAL).toNat =
      now.toNat - MIN_CONFIRM_INTERVAL := by
    rw [UInt64.toNat_sub_of_le _ _ (UInt64.le_iff_toNat_le.mpr (by rwa [interval_toNat])),
      interval_toNat]
  have hget (account : Account) (height : Nat) :
      (s.manager.age now).confirms.get (account, height) =
        (s.manager.confirms.get (account, height)).filter fun info =>
          !(info.timestamp < now - UInt64.ofNat MIN_CONFIRM_INTERVAL) :=
    Table.get_filter _ _ _
  constructor
  · intro account height info hsome
    change (s.manager.age now).confirms.get (account, height) = some info at hsome
    rw [hget, Option.filter_eq_some_iff] at hsome
    obtain ⟨hcovers, hbound⟩ := h.known account height info hsome.1
    refine ⟨hcovers, ?_⟩
    change _ ≤ now.toNat + MIN_CONFIRM_INTERVAL * (votesOf history).length
    omega
  · intro account height hnone vote hmem haccount hheight
    change (s.manager.age now).confirms.get (account, height) = none at hnone
    cases hold : s.manager.confirms.get (account, height) with
    | none =>
        obtain ⟨old, hdropped, hlimit⟩ :=
          h.forgotten account height hold vote hmem haccount hheight
        exact ⟨old, dropped_grows hdropped, hlimit⟩
    | some info =>
        obtain ⟨hcovers, -⟩ := h.known account height info hold
        refine ⟨(info, now), ?_, ?_⟩
        · rw [dropped_cons, ConfirmAction.drops]
          dsimp only
          rw [if_pos hnone, hold]
          exact List.mem_cons_self
        · exact hcovers vote hmem haccount hheight
  · intro account height old hdropped
    rw [dropped_cons, List.mem_append] at hdropped
    rcases hdropped with hnew | hdropped
    · rw [Option.mem_toList, ConfirmAction.drops] at hnew
      dsimp only at hnew
      split at hnew
      · rename_i hnone
        obtain ⟨info, hsome, rfl⟩ := Option.map_eq_some_iff.mp hnew
        rw [hget, hsome, Option.filter_eq_none_iff] at hnone
        have hearly := hnone info rfl
        simp only [Bool.not_eq_true', decide_eq_false_iff_not, not_not] at hearly
        rw [UInt64.lt_iff_toNat_lt, hcutoff] at hearly
        dsimp only
        omega
      · cases hnew
    · exact h.aged account height old hdropped
  · intro id call hcall
    exact UInt64.le_trans (h.waiting id call hcall) hclock
  · exact h.agree

theorem run_confirmsKept (h : confirmMachine.Run Timely history s) : ConfirmsKept history s := by
  apply h.invariant
  · intro s ⟨hmanager, hcalls⟩
    have hempty (account : Account) (height : Nat) :
        s.manager.confirms.get (account, height) = none := by
      rw [hmanager]
      exact Table.get_empty _
    constructor
    · intro account height info hget
      rw [hempty] at hget
      cases hget
    · intro account height _ vote hmem
      cases hmem
    · intro account height old hmem
      cases hmem
    · intro id call hget
      rw [hcalls, Table.get_empty] at hget
      cases hget
    · intro first hmem
      cases hmem
  · intro history s action hrun hfits hallowed ih
    cases action with
    | read id call => exact ih.read hfits.1
    | getTimestamp id =>
        obtain ⟨call, hcall⟩ := hfits
        obtain ⟨hprompt, -, hroom⟩ := hallowed
        rw [votesOf_getTimestamp hcall, List.length_cons, Nat.mul_succ] at hroom
        have hclock : (s.take (.getTimestamp id)).clock = s.clock := by
          simp only [ConfirmState.take, hcall]
        rw [hclock] at hroom
        exact ih.getTimestamp hcall (hprompt call hcall) hroom
    | age now => exact ih.age hfits hallowed.2.1

end Votes

section Receivers

open Elections

variable {env : Env} {rep : Account} {votes : List OwnVote} {s : Elections env}

theorem OwnVote.Agrees.checkConflict {first second : OwnVote} (h : first.Agrees second)
    (signatureFirst signatureSecond : Signature) :
    checkConflict_ ⟨first.timestamp, signatureFirst, first.hash⟩
      ⟨second.timestamp, signatureSecond, second.hash⟩ = false := by
  have hinterval : (UInt64.ofNat MIN_CONFIRM_INTERVAL).toNat = MIN_CONFIRM_INTERVAL := by decide
  unfold checkConflict_
  rcases h with ⟨hhash, htime⟩ | hapart
  · rw [if_pos ⟨htime, hhash⟩]
  · split
    · rfl
    · have hpos : 0 < MIN_CONFIRM_INTERVAL := by decide
      rw [decide_eq_false_iff_not, UInt64.lt_iff_toNat_lt, hinterval]
      split
      · rename_i hlt
        have hle := UInt64.le_of_lt hlt
        dsimp only at hlt hle ⊢
        rw [gt_iff_lt, UInt64.lt_iff_toNat_lt] at hlt
        rw [UInt64.toNat_sub_of_le _ _ hle]
        omega
      · rename_i hlt
        have hle := UInt64.not_lt.mp hlt
        dsimp only at hle ⊢
        have hnat := UInt64.le_iff_toNat_le.mp hle
        rw [UInt64.toNat_sub_of_le _ _ hle]
        omega

-- The vote that a confirm message with the block and the timestamp shows.
def ownVote (env : Env) (block : Block) (timestamp : UInt64) : OwnVote :=
  ⟨block.account, block.height, timestamp, env.hash block⟩

-- What others can show of the representative's votes: it has given them.
def ElectionAction.Genuine (env : Env) (rep : Account) (votes : List OwnVote) :
    ElectionAction → Prop
  | .confirm _ representative timestamp _ block _ =>
    representative = rep → ownVote env block timestamp ∈ votes
  | .conflict _ representative timestampFirst timestampSecond _ _ blockFirst blockSecond _ =>
    representative = rep →
      ownVote env blockFirst timestampFirst ∈ votes ∧ ownVote env blockSecond timestampSecond ∈ votes
  | _ => True

def ShowsGenuine (env : Env) (rep : Account) (votes : List OwnVote) (history : ElectionHistory env)
    (_ : Elections env) : Prop :=
  ∀ entry ∈ history, entry.2.Genuine env rep votes

def VotesAgree (votes : List OwnVote) : Prop :=
  ∀ first ∈ votes, ∀ second ∈ votes, first.account = second.account →
    first.height = second.height → first.Agrees second

-- What an election holds of the representative's is its own vote.
def Election.HoldsGenuine (e : Election env) (rep : Account) (votes : List OwnVote) : Prop :=
  ∀ info, e.votes.get rep = some info → info.conflictFound = false ∧
    ⟨e.account, e.height, info.lastVote.timestamp, info.lastVote.hash⟩ ∈ votes

theorem Election.HoldsGenuine.of_votes {e e' : Election env} (h : e.HoldsGenuine rep votes)
    (hsteady : e.Steady e')
    (hvotes : ∀ info, e'.votes.get rep = some info → e.votes.get rep = some info) :
    e'.HoldsGenuine rep votes := by
  intro info hinfo
  rw [hsteady.account, hsteady.height]
  exact h info (hvotes info hinfo)

theorem addBlocks_votes (steady : Int) (blocks : List Block) (e : Election env) :
    (blocks.foldl (fun e b => e.addBlock steady b) e).votes = e.votes := by
  induction blocks generalizing e with
  | nil => rfl
  | cons b blocks ih => exact (ih _).trans (e.addBlock_votes steady b).1

theorem delBlock_votes (e : Election env) (hash : BlockHash) :
    (e.delBlock hash).votes = e.votes := by
  rw [Election.delBlock_eq]

theorem purged_votes (e : Election env) (order : List Account) (clock : Account → UInt64)
    {info : RepVoteInfo} (h : (e.purgeOutdatedVotes order clock).votes.get rep = some info) :
    e.votes.get rep = some info := by
  rw [Election.purgeOutdatedVotes_eq] at h
  generalize e.outdated order clock = list at h
  induction list generalizing e with
  | nil => exact h
  | cons vote list ih =>
      have hrest := ih (e.purgeVote vote) h
      rw [Election.purgeVote, Election.withVotes] at hrest
      dsimp only at hrest
      rw [Table.get_del] at hrest
      split at hrest
      · cases hrest
      · exact hrest

-- Votes of others do not matter.
theorem Election.HoldsGenuine.other {e : Election env} (h : e.HoldsGenuine rep votes)
    {representative : Account} (hne : rep ≠ representative) {e' : Election env}
    (hsteady : e.Steady e') (info : RepVoteInfo)
    (hvotes : e'.votes = e.votes.put representative info) : e'.HoldsGenuine rep votes := by
  apply h.of_votes hsteady
  intro mine hmine
  rwa [hvotes, Table.get_put, if_neg hne] at hmine

-- The representative's own vote takes the place of its last one.
theorem Election.HoldsGenuine.own {e e' : Election env} {info : RepVoteInfo}
    (hsteady : e.Steady e') (hvotes : e'.votes.get rep = some info)
    (hclean : info.conflictFound = false)
    (hmem : ⟨e.account, e.height, info.lastVote.timestamp, info.lastVote.hash⟩ ∈ votes) :
    e'.HoldsGenuine rep votes := by
  intro mine hmine
  rw [hvotes] at hmine
  cases hmine
  rw [hsteady.account, hsteady.height]
  exact ⟨hclean, hmem⟩

-- A genuine vote of the representative agrees with the one that the election holds.
theorem processConfirm_genuine (hseated : s.Seated) (hagree : VotesAgree votes)
    (hheld : ∀ account e, s.elections.get account = some e → e.HoldsGenuine rep votes)
    {steady : Int} {timestamp : UInt64} {signature : Signature} {block : Block} {weight : Amount}
    (hmem : ownVote env block timestamp ∈ votes) {account : Account} {e' : Election env}
    (h : (s.processConfirm steady rep timestamp signature block weight).elections.elections.get
      account = some e') : e'.HoldsGenuine rep votes := by
  unfold processConfirm at h
  cases hget : s.elections.get block.account with
  | none =>
      rw [hget] at h
      exact hheld account e' h
  | some e =>
      rw [hget] at h
      dsimp only at h
      have haccount := hseated _ _ hget
      have hgenuine := hheld _ _ hget
      split at h
      · exact hheld account e' h
      rename_i hheight
      rw [ne_eq, not_not] at hheight
      have hmine : ⟨e.account, e.height, timestamp, env.hash block⟩ ∈ votes := by
        rw [haccount, hheight]
        exact hmem
      split at h
      · dsimp only at h
        rw [addBlock_get] at h
        split at h
        · cases h
          refine .own ((e.addRepVoteInfo_steady _ _).trans (Election.addBlock_steady _ _ _))
            (show _ = some ⟨false, weight, timestamp, signature, env.hash block⟩ from ?_) rfl hmine
          rw [(Election.addBlock_votes _ _ _).1]
          exact (Table.get_put _ _ _ _).trans (if_pos rfl)
        · exact hheld account e' h
      · rename_i info hinfo
        obtain ⟨hclean, hlast⟩ := hgenuine info hinfo
        have hsound : checkConflict_ info.lastVote ⟨timestamp, signature, env.hash block⟩ = false :=
          (hagree _ hlast _ hmine rfl rfl).checkConflict info.lastVote.signature signature
        rw [hclean, if_neg (by decide), hsound, if_neg (by decide)] at h
        split at h
        · exact hheld account e' h
        · dsimp only at h
          rw [addBlock_get] at h
          split at h
          · cases h
            refine .own (((e.delBlock_steady info.lastVote.hash).trans
              (Election.addRepVoteInfo_steady _ _ _)).trans (Election.addBlock_steady _ _ _))
              (show _ = some ⟨false, weight, timestamp, signature, env.hash block⟩ from ?_) rfl hmine
            rw [(Election.addBlock_votes _ _ _).1]
            exact (Table.get_put _ _ _ _).trans (if_pos rfl)
          · exact hheld account e' h

-- Genuine votes are no proof of a contradiction.
theorem processConflict_genuine (hagree : VotesAgree votes) {steady : Int}
    {timestampFirst timestampSecond : UInt64} {signatureFirst signatureSecond : Signature}
    {blockFirst blockSecond : Block} {weight : Amount}
    (hfirst : ownVote env blockFirst timestampFirst ∈ votes)
    (hsecond : ownVote env blockSecond timestampSecond ∈ votes) :
    s.processConflict steady rep timestampFirst timestampSecond signatureFirst signatureSecond
      blockFirst blockSecond weight = ⟨s, []⟩ := by
  unfold processConflict
  split
  · rfl
  · rename_i hsame
    rw [not_or, ne_eq, not_not, ne_eq, not_not] at hsame
    have hsound : checkConflict_ ⟨timestampFirst, signatureFirst, env.hash blockFirst⟩
        ⟨timestampSecond, signatureSecond, env.hash blockSecond⟩ = false :=
      (hagree _ hfirst _ hsecond hsame.1 hsame.2).checkConflict signatureFirst signatureSecond
    dsimp only
    rw [if_pos hsound]

theorem take_genuine (hseated : s.Seated) (hagree : VotesAgree votes) {action : ElectionAction}
    (hgenuine : action.Genuine env rep votes)
    (hheld : ∀ account e, s.elections.get account = some e → e.HoldsGenuine rep votes)
    {account : Account} {e' : Election env}
    (h : (s.take action).elections.elections.get account = some e') :
    e'.HoldsGenuine rep votes := by
  rcases take_get hseated h with ⟨hold, -⟩ | hchange
  · exact hheld account e' hold
  cases hchange with
  | @fresh delay steady first rest hadd =>
      intro info hinfo
      rw [addBlocks_votes] at hinfo
      cases (Table.get_empty rep).symm.trans hinfo
  | @added e delay steady blocks hget hadd =>
      refine (hheld _ _ hget).of_votes (Election.addBlocks_steady _ _ _) fun info hinfo => ?_
      rwa [addBlocks_votes] at hinfo
  | @voted e steady representative timestamp signature block weight hget hnone =>
      by_cases hne : rep = representative
      · subst hne
        exact processConfirm_genuine hseated hagree hheld (hgenuine rfl) h
      · exact (hheld _ _ hget).other hne ((e.addRepVoteInfo_steady _ _).trans
          (Election.addBlock_steady _ _ _)) _ (Election.addBlock_votes _ _ _).1
  | @contradicted e steady representative timestamp signature block weight info hget hinfo hclean =>
      by_cases hne : rep = representative
      · subst hne
        exact processConfirm_genuine hseated hagree hheld (hgenuine rfl) h
      · exact (hheld _ _ hget).other hne (((e.addRepVoteInfo_steady _ _).trans
          (Election.addConflict_steady _ _ _)).trans (Election.addBlock_steady _ _ _)) _
          (Election.addBlock_votes _ _ _).1
  | @revoted e steady representative timestamp signature block weight info hget hinfo hclean =>
      by_cases hne : rep = representative
      · subst hne
        exact processConfirm_genuine hseated hagree hheld (hgenuine rfl) h
      · refine (hheld _ _ hget).other hne (((e.delBlock_steady info.lastVote.hash).trans
          (Election.addRepVoteInfo_steady _ _ _)).trans (Election.addBlock_steady _ _ _))
          ⟨false, weight, timestamp, signature, env.hash block⟩ ?_
        rw [← delBlock_votes e info.lastVote.hash]
        exact (Election.addBlock_votes _ _ _).1
  | @reported e steady representative timestampFirst timestampSecond signatureFirst signatureSecond
      blockFirst blockSecond weight hget hnone =>
      by_cases hne : rep = representative
      · subst hne
        obtain ⟨hfirst, hsecond⟩ := hgenuine rfl
        rw [take, processConflict_genuine hagree hfirst hsecond] at h
        exact hheld account _ h
      · refine (hheld _ _ hget).other hne (Election.addConflicting_steady _ _ _ _ _ _ _ _)
          ⟨true, weight, timestampFirst, signatureFirst, env.hash blockFirst⟩ ?_
        rw [Election.addConflicting, (Election.addBlock_votes _ _ _).1]
        exact (Election.addBlock_votes _ _ _).1
  | @reportedVoter e steady representative timestampFirst timestampSecond signatureFirst
      signatureSecond blockFirst blockSecond weight info hget hinfo hclean =>
      by_cases hne : rep = representative
      · subst hne
        obtain ⟨hfirst, hsecond⟩ := hgenuine rfl
        rw [take, processConflict_genuine hagree hfirst hsecond] at h
        exact hheld account _ h
      · refine (hheld _ _ hget).other hne ((e.delBlock_steady info.lastVote.hash).trans
          (Election.addConflicting_steady _ _ _ _ _ _ _ _))
          ⟨true, weight, timestampFirst, signatureFirst, env.hash blockFirst⟩ ?_
        rw [Election.addConflicting, (Election.addBlock_votes _ _ _).1, ← delBlock_votes e
          info.lastVote.hash]
        exact (Election.addBlock_votes _ _ _).1
  | @purged e order clock hget =>
      exact (hheld _ _ hget).of_votes (e.purgeOutdatedVotes_steady _ _)
        fun info hinfo => purged_votes e order clock hinfo
  | @processed e _ r hget hresult =>
      have haccount := hseated _ _ hget
      rcases s.processElection_elections e r with
        hdel | ⟨e'', haccount', hheight', -, hvotes, -, hput⟩
      · rw [hdel, Table.get_del, haccount, if_pos rfl] at hresult
        cases hresult
      · rw [hput, Table.get_put, haccount, if_pos rfl] at hresult
        cases hresult
        intro info hinfo
        rw [hvotes] at hinfo
        rw [haccount', hheight']
        exact hheld _ _ hget info (purged_votes e r.order r.purgeClock hinfo)

-- The run lemma of a receiver.
theorem run_genuine {history : ElectionHistory env} (hagree : VotesAgree votes)
    (h : (electionMachine env).Run (ShowsGenuine env rep votes) history s) : s.Seated ∧
      ∀ account e, s.elections.get account = some e → e.HoldsGenuine rep votes := by
  apply h.invariant (P := fun _ s => s.Seated ∧
    ∀ account e, s.elections.get account = some e → e.HoldsGenuine rep votes)
  · intro s hstart
    have hnone (account : Account) (e : Election env) : ¬s.elections.get account = some e := by
      rw [show s.elections = .empty from hstart, Table.get_empty]
      exact nofun
    exact ⟨fun account e hget => absurd hget (hnone account e),
      fun account e hget => absurd hget (hnone account e)⟩
  · intro history s action _ _ hshown ⟨hseated, hheld⟩
    refine ⟨hseated.take action, fun account e' hget => ?_⟩
    exact take_genuine hseated hagree (hshown _ List.mem_cons_self) hheld hget

end Receivers

-- Whatever order its votes arrive in, and whoever shows them, no receiver finds a conflict.
theorem own_votes_agree {history : ConfirmHistory} {s : ConfirmState}
    (h : confirmMachine.Run Timely history s) :
    (∀ first ∈ votesOf history, ∀ second ∈ votesOf history, first.account = second.account →
      first.height = second.height → first.Agrees second ∧
        ∀ signatureFirst signatureSecond,
          checkConflict_ ⟨first.timestamp, signatureFirst, first.hash⟩
            ⟨second.timestamp, signatureSecond, second.hash⟩ = false) ∧
    ∀ (env : Env) (rep : Account) (received : ElectionHistory env) (elections : Elections env),
      (electionMachine env).Run (ShowsGenuine env rep (votesOf history)) received elections →
        ∀ account e info, elections.elections.get account = some e → e.votes.get rep = some info →
          info.conflictFound = false := by
  have hkept := run_confirmsKept h
  constructor
  · intro first hfirst second hsecond haccount hheight
    have hagrees := hkept.agree first hfirst second hsecond haccount hheight
    exact ⟨hagrees, hagrees.checkConflict⟩
  · intro env rep received elections hrun account e info hget hinfo
    exact ((run_genuine hkept.agree hrun).2 account e hget info hinfo).1

section Samples

private def begun (clock : UInt64) : ConfirmState := ⟨.empty, clock, .empty⟩

-- Two blocks, both voted for at one reading of the clock, with a call of `Age` between.
private def switching (clock : UInt64) : List ConfirmAction :=
  [.read 0 ⟨clock, 1, 7, 2⟩, .getTimestamp 0, .age clock, .read 1 ⟨clock, 1, 7, 3⟩,
    .getTimestamp 1]

-- The second call reads the clock with the first, and gets the lock after the entry is dropped.
private def overtaken : List ConfirmAction :=
  [.read 0 ⟨100, 1, 7, 2⟩, .read 1 ⟨100, 1, 7, 3⟩, .getTimestamp 0, .age 111, .getTimestamp 1]

-- The ledger switches to a rival and back, a call is overtaken by one that finds the entry,
-- and the entry is dropped when it is old.
private def patient : List ConfirmAction :=
  [.read 0 ⟨100, 1, 7, 2⟩, .getTimestamp 0, .read 1 ⟨100, 1, 7, 3⟩, .read 2 ⟨104, 1, 7, 2⟩,
    .age 104, .getTimestamp 2, .getTimestamp 1, .read 3 ⟨130, 1, 7, 2⟩, .age 131,
    .getTimestamp 3]

instance (s : ConfirmState) : DecidablePred s.Fits
  | .read id call => inferInstanceAs (Decidable (s.clock ≤ call.now ∧ s.calls.get id = none))
  | .getTimestamp id =>
    decidable_of_iff ((s.calls.get id).isSome = true) Option.isSome_iff_exists
  | .age now => inferInstanceAs (Decidable (s.clock ≤ now))

instance : DecidablePred Prompt
  | [] => isTrue trivial
  | (_, .read _ _) :: _ => isTrue trivial
  | (_, .age _) :: _ => isTrue trivial
  | (s, .getTimestamp id) :: before =>
    inferInstanceAs (Decidable (∀ call ∈ s.calls.get id,
      s.manager.confirms.get (call.account, call.height) = none → ¬call.Overtaken before))

private theorem sample_run {allowed : ConfirmHistory → ConfirmState → Prop} (clock : UInt64)
    (actions : List ConfirmAction)
    (hfits : ∀ n (h : n < actions.length),
      (confirmMachine.exec (begun clock) (actions.take n)).2.Fits actions[n])
    (hallowed : ∀ n ≤ actions.length,
      allowed (confirmMachine.exec (begun clock) (actions.take n)).1
        (confirmMachine.exec (begun clock) (actions.take n)).2) :
    confirmMachine.Run allowed (confirmMachine.exec (begun clock) actions).1
      (confirmMachine.exec (begun clock) actions).2 :=
  Machine.exec_run_of_fits ⟨rfl, rfl⟩ hfits hallowed

private def contradict (first second : OwnVote) : Prop :=
  first.account = second.account ∧ first.height = second.height ∧ ¬first.Agrees second ∧
    checkConflict_ ⟨first.timestamp, 0, first.hash⟩ ⟨second.timestamp, 0, second.hash⟩ = true

-- In the first seconds `Age` forgets everything, and the second vote contradicts the first. Later
-- it does so when the second call has read the clock before `Age` and gets the lock after it.
theorem early_votes_conflict :
    (∃ (history : ConfirmHistory) (s : ConfirmState),
      confirmMachine.Run (fun _ _ => True) history s ∧ s.clock = 5 ∧
        ∃ first ∈ votesOf history, ∃ second ∈ votesOf history, contradict first second) ∧
    ∃ (history : ConfirmHistory) (s : ConfirmState),
      confirmMachine.Run (fun _ s => 100 ≤ s.clock) history s ∧
        ∃ first ∈ votesOf history, ∃ second ∈ votesOf history, contradict first second := by
  refine ⟨⟨_, _, sample_run 5 (switching 5) (by decide) fun _ _ => trivial, rfl,
    ⟨1, 7, 5, 3⟩, by decide, ⟨1, 7, 5, 2⟩, by decide, ?_⟩,
    ⟨_, _, sample_run 100 overtaken (by decide) (by decide),
      ⟨1, 7, 100, 3⟩, by decide, ⟨1, 7, 100, 2⟩, by decide, ?_⟩⟩
  · exact ⟨rfl, rfl, by unfold OwnVote.Agrees; decide, by decide⟩
  · exact ⟨rfl, rfl, by unfold OwnVote.Agrees; decide, by decide⟩

-- The votes of the patient run, pushed behind one another or begun anew.
theorem own_votes_agree_switching :
    let votes := votesOf (confirmMachine.exec (begun 100) patient).1
    votes = [⟨1, 7, 130, 2⟩, ⟨1, 7, 110, 3⟩, ⟨1, 7, 100, 2⟩, ⟨1, 7, 100, 2⟩] ∧
      OwnVote.Agrees ⟨1, 7, 110, 3⟩ ⟨1, 7, 100, 2⟩ ∧
      OwnVote.Agrees ⟨1, 7, 130, 2⟩ ⟨1, 7, 110, 3⟩ := by
  intro votes
  have hvotes : votes = [⟨1, 7, 130, 2⟩, ⟨1, 7, 110, 3⟩, ⟨1, 7, 100, 2⟩, ⟨1, 7, 100, 2⟩] := by
    decide
  have hrun : confirmMachine.Run Timely _ _ :=
    sample_run 100 patient (by decide) (by unfold Timely; decide)
  have hagree := (own_votes_agree hrun).1
  have hpushed : (⟨1, 7, 110, 3⟩ : OwnVote) ∈ votes := by rw [hvotes]; decide
  have hfirst : (⟨1, 7, 100, 2⟩ : OwnVote) ∈ votes := by rw [hvotes]; decide
  have hlast : (⟨1, 7, 130, 2⟩ : OwnVote) ∈ votes := by rw [hvotes]; decide
  exact ⟨hvotes, (hagree _ hpushed _ hfirst rfl rfl).1, (hagree _ hlast _ hpushed rfl rfl).1⟩

end Samples

end Raicoin
