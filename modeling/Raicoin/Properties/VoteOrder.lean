import Mathlib.Data.Finset.Max
import Raicoin.Properties.Confirms
import Raicoin.Properties.Slots

-- The votes of a representative that keeps its distance, in any order.
namespace Raicoin

open Lib

variable {env : Env}

-- What `ProcessConfirm` is called with.
structure Confirmation where
  steady : Int
  representative : Account
  timestamp : UInt64
  signature : Signature
  block : Block
  weight : Amount

def Confirmation.vote (env : Env) (c : Confirmation) : Vote :=
  ⟨c.timestamp, c.signature, env.hash c.block⟩

-- It is a vote of the representative in the election of the account at the height.
def Confirmation.Counts (c : Confirmation) (representative account : Account) (height : Nat) :
    Prop :=
  c.representative = representative ∧ c.block.account = account ∧ c.block.height = height

instance (c : Confirmation) (representative account : Account) (height : Nat) :
    Decidable (c.Counts representative account height) :=
  inferInstanceAs (Decidable (_ ∧ _))

namespace Elections

def deliver (s : Elections env) (c : Confirmation) : Elections env :=
  (s.processConfirm c.steady c.representative c.timestamp c.signature c.block c.weight).elections

def deliverAll (s : Elections env) (calls : List Confirmation) : Elections env :=
  calls.foldl deliver s

-- What the election of an account has of a representative.
def recorded (s : Elections env) (account representative : Account) : Option RepVoteInfo :=
  (s.elections.get account).bind fun e => e.votes.get representative

end Elections

-- What `ProcessConfirm` makes of the record of a representative.
def record (info : Option RepVoteInfo) (weight : Amount) (vote : Vote) : Option RepVoteInfo :=
  match info with
  | none => some ⟨false, weight, vote⟩
  | some info =>
    if info.conflictFound then some info
    else if checkConflict_ info.lastVote vote then some ⟨true, weight, info.lastVote⟩
    else if info.lastVote.timestamp ≥ vote.timestamp then some info
    else some ⟨false, weight, vote⟩

section Deliveries

variable {s : Elections env} {e : Election env} {account representative : Account}

-- A call leaves everything as it is, or writes one record into one election.
inductive DeliverStep (s : Elections env) (c : Confirmation) : Elections env → Prop where
  | idle (h : ∀ e, s.elections.get c.block.account = some e → e.height = c.block.height →
        record (e.votes.get c.representative) c.weight (c.vote env) =
          e.votes.get c.representative) :
      DeliverStep s c s
  | recorded {e e' : Election env} {info : RepVoteInfo} {s' : Elections env}
      (hget : s.elections.get c.block.account = some e) (hlevel : e.height = c.block.height)
      (hsteady : e.Steady e')
      (hrecord : record (e.votes.get c.representative) c.weight (c.vote env) = some info)
      (hvotes : e'.votes = e.votes.put c.representative info)
      (hresult : ∀ account, s'.elections.get account =
        if account = c.block.account then some e' else s.elections.get account) :
      DeliverStep s c s'

-- The election that is written back has the block of the vote, too.
private theorem DeliverStep.of_addBlock {c : Confirmation} {before : Election env}
    {info : RepVoteInfo} (hget : s.elections.get c.block.account = some e)
    (hseated : s.Seated) (hlevel : e.height = c.block.height) (hsteady : e.Steady before)
    (hrecord : record (e.votes.get c.representative) c.weight (c.vote env) = some info)
    (hvotes : before.votes = e.votes.put c.representative info) :
    DeliverStep s c (s.addBlock_ before c.steady c.block).1 := by
  have hadded := before.addBlock_steady c.steady c.block
  refine .recorded hget hlevel (hsteady.trans hadded) hrecord ?_ fun account => ?_
  · rw [(before.addBlock_votes c.steady c.block).1, hvotes]
  · rw [Elections.addBlock_get, hsteady.account, hseated _ _ hget]

theorem deliver_step (hseated : s.Seated) (c : Confirmation) : DeliverStep s c (s.deliver c) := by
  unfold Elections.deliver Elections.processConfirm
  cases hget : s.elections.get c.block.account with
  | none =>
      refine .idle fun e hsome => ?_
      rw [hget] at hsome
      cases hsome
  | some e =>
      dsimp only
      by_cases hlevel : e.height = c.block.height
      · rw [if_neg (not_not_intro hlevel)]
        cases hvote : e.votes.get c.representative with
        | none =>
            refine .of_addBlock hget hseated hlevel (e.addRepVoteInfo_steady _ _) ?_ rfl
            rw [hvote]
            rfl
        | some info =>
            dsimp only
            have hidle (hsame : record (some info) c.weight (c.vote env) = some info) :
                DeliverStep s c s := by
              refine .idle fun other hother _ => ?_
              rw [hget] at hother
              cases hother
              rw [hvote]
              exact hsame
            by_cases hconflict : info.conflictFound = true
            · rw [if_pos hconflict]
              exact hidle (if_pos hconflict)
            rw [if_neg hconflict]
            by_cases hcheck : checkConflict_ info.lastVote (c.vote env) = true
            · rw [Confirmation.vote] at hcheck
              rw [if_pos hcheck]
              refine .of_addBlock hget hseated hlevel ((e.addRepVoteInfo_steady _ _).trans
                (Election.addConflict_steady _ _ _)) ?_ rfl
              rw [hvote, record, if_neg hconflict, Confirmation.vote, if_pos hcheck]
            by_cases hstale : info.lastVote.timestamp ≥ c.timestamp
            · rw [Confirmation.vote] at hcheck
              rw [if_neg hcheck, if_pos hstale]
              refine hidle ?_
              rw [record, if_neg hconflict, Confirmation.vote, if_neg hcheck]
              exact if_pos hstale
            · rw [Confirmation.vote] at hcheck
              rw [if_neg hcheck, if_neg hstale]
              have hvotes : ((e.delBlock info.lastVote.hash).addRepVoteInfo_ c.representative
                  ⟨false, c.weight, c.vote env⟩).votes =
                    e.votes.put c.representative ⟨false, c.weight, c.vote env⟩ := by
                rw [Election.addRepVoteInfo_, Election.delBlock_eq]
              refine .of_addBlock hget hseated hlevel ((e.delBlock_steady _).trans
                (Election.addRepVoteInfo_steady _ _ _)) ?_ hvotes
              rw [hvote, record, if_neg hconflict, Confirmation.vote, if_neg hcheck]
              exact if_neg hstale
      · rw [if_pos hlevel]
        refine .idle fun other hother hsame => ?_
        rw [hget] at hother
        cases hother
        exact absurd hsame hlevel

-- What one call makes of the election of an account.
theorem deliver_get (hseated : s.Seated) (hget : s.elections.get account = some e)
    (c : Confirmation) :
    ∃ e', (s.deliver c).elections.get account = some e' ∧ e'.height = e.height ∧
      e'.votes.get representative =
        if c.Counts representative account e.height then
          record (e.votes.get representative) c.weight (c.vote env)
        else e.votes.get representative := by
  have hstep := deliver_step hseated c
  generalize s.deliver c = after at hstep ⊢
  cases hstep with
  | idle hidle =>
      refine ⟨e, hget, rfl, ?_⟩
      split
      · rename_i hcounts
        obtain ⟨rfl, rfl, hlevel⟩ := hcounts
        exact (hidle e hget hlevel.symm).symm
      · rfl
  | @recorded e₁ e' info _ hget₁ hlevel hsteady hrecord hvotes hresult =>
      by_cases haccount : account = c.block.account
      · subst haccount
        rw [hget] at hget₁
        cases hget₁
        refine ⟨e', (hresult _).trans (if_pos rfl), hsteady.height, ?_⟩
        rw [hvotes, Table.get_put]
        by_cases hrep : representative = c.representative
        · subst hrep
          rw [if_pos rfl, if_pos ⟨rfl, rfl, hlevel.symm⟩, hrecord]
        · rw [if_neg hrep, if_neg fun hcounts => hrep hcounts.1.symm]
      · refine ⟨e, ((hresult account).trans (if_neg haccount)).trans hget, rfl, ?_⟩
        rw [if_neg fun hcounts => haccount hcounts.2.1.symm]

theorem deliver_seated (hseated : s.Seated) (c : Confirmation) : (s.deliver c).Seated := by
  have hstep : s.deliver c = (s.take (.confirm c.steady c.representative c.timestamp c.signature
      c.block c.weight)).elections := rfl
  rw [hstep]
  exact Elections.Seated.take hseated _

-- The record after all calls, from those that count.
theorem deliverAll_recorded (calls : List Confirmation) (hseated : s.Seated)
    (hget : s.elections.get account = some e) :
    (s.deliverAll calls).recorded account representative =
      (calls.filter fun c => c.Counts representative account e.height).foldl
        (fun info c => record info c.weight (c.vote env)) (e.votes.get representative) := by
  induction calls generalizing s e with
  | nil => simp [Elections.deliverAll, Elections.recorded, hget]
  | cons c calls ih =>
      obtain ⟨e', hget', hheight, hvotes⟩ :=
        @deliver_get _ _ _ _ representative hseated hget c
      have hrest := ih (deliver_seated hseated c) hget'
      rw [Elections.deliverAll, List.foldl_cons]
      refine hrest.trans ?_
      rw [hvotes, hheight, List.filter_cons]
      by_cases hcounts : c.Counts representative account e.height
      · simp only [hcounts, if_true, decide_true, List.foldl_cons]
      · simp only [hcounts, if_false, decide_false]
        rfl

end Deliveries

section Honest

-- Any two different votes are at least the interval apart.
def Spaced (votes : Finset Vote) : Prop :=
  ∀ v ∈ votes, ∀ w ∈ votes, v ≠ w →
    v.timestamp.toNat + MIN_CONFIRM_INTERVAL ≤ w.timestamp.toNat ∨
      w.timestamp.toNat + MIN_CONFIRM_INTERVAL ≤ v.timestamp.toNat

variable {votes seen : Finset Vote}

theorem Spaced.checkConflict (h : Spaced votes) {v w : Vote} (hv : v ∈ votes) (hw : w ∈ votes) :
    checkConflict_ v w = false := by
  have hagrees : (⟨0, 0, v.timestamp, v.hash⟩ : OwnVote).Agrees ⟨0, 0, w.timestamp, w.hash⟩ := by
    by_cases heq : v = w
    · exact .inl ⟨by rw [heq], by rw [heq]⟩
    · exact .inr (h v hv w hw heq)
  exact hagrees.checkConflict v.signature w.signature

theorem Spaced.eq_of_timestamp (h : Spaced votes) {v w : Vote} (hv : v ∈ votes) (hw : w ∈ votes)
    (heq : v.timestamp = w.timestamp) : v = w := by
  by_contra hne
  have hpos : 0 < MIN_CONFIRM_INTERVAL := by decide
  rcases h v hv w hw hne with hle | hle
  · rw [heq] at hle
    omega
  · rw [heq] at hle
    omega

-- The record is of the latest of the votes seen, and of no conflict.
def ShowsLatest (seen : Finset Vote) (info : Option RepVoteInfo) : Prop :=
  match info with
  | none => seen = ∅
  | some info => info.conflictFound = false ∧ info.lastVote ∈ seen ∧
      ∀ w ∈ seen, w.timestamp ≤ info.lastVote.timestamp

-- What one vote does to the record.
theorem ShowsLatest.record {info : Option RepVoteInfo} (h : ShowsLatest seen info)
    (hspaced : Spaced votes) (hseen : seen ⊆ votes) {vote : Vote} (hvote : vote ∈ votes)
    (weight : Amount) : ShowsLatest (insert vote seen) (record info weight vote) := by
  cases info with
  | none =>
      have hempty : seen = ∅ := h
      rw [Raicoin.record, hempty]
      refine ⟨rfl, Finset.mem_insert_self _ _, fun w hw => ?_⟩
      rw [Finset.mem_insert] at hw
      rcases hw with rfl | hw
      · exact UInt64.le_refl _
      · cases hw
  | some info =>
      obtain ⟨hclean, hlast, hlatest⟩ := h
      have hagree := hspaced.checkConflict (hseen hlast) hvote
      rw [Raicoin.record, if_neg (by simp [hclean]), if_neg (by simp [hagree])]
      by_cases hstale : info.lastVote.timestamp ≥ vote.timestamp
      · rw [if_pos hstale]
        refine ⟨hclean, Finset.mem_insert_of_mem hlast, fun w hw => ?_⟩
        rcases Finset.mem_insert.mp hw with rfl | hold
        · exact hstale
        · exact hlatest w hold
      · rw [if_neg hstale]
        refine ⟨rfl, Finset.mem_insert_self _ _, fun w hw => ?_⟩
        have hnew := UInt64.le_of_lt (UInt64.not_le.mp hstale)
        rcases Finset.mem_insert.mp hw with rfl | hold
        · exact UInt64.le_refl _
        · exact UInt64.le_trans (hlatest w hold) hnew

-- What all of them do, whatever their order and however often they come.
theorem ShowsLatest.foldl {info : Option RepVoteInfo} (h : ShowsLatest seen info)
    (hspaced : Spaced votes) (hseen : seen ⊆ votes) (calls : List Confirmation)
    (hcalls : ∀ c ∈ calls, c.vote env ∈ votes) :
    ShowsLatest (seen ∪ (calls.map (Confirmation.vote env)).toFinset)
      (calls.foldl (fun info c => Raicoin.record info c.weight (c.vote env)) info) := by
  induction calls generalizing seen info with
  | nil => simpa using h
  | cons c calls ih =>
      obtain ⟨hvote, hrest⟩ := List.forall_mem_cons.mp hcalls
      have hnext := ih (h.record hspaced hseen hvote c.weight)
        (Finset.insert_subset hvote hseen) hrest
      rw [List.map_cons, List.toFinset_cons, Finset.union_insert, ← Finset.insert_union]
      exact hnext

end Honest

-- The calls deliver the votes of the representative: no others, and each at least once.
structure DeliversVotes (env : Env) (representative account : Account) (height : Nat)
    (votes : Finset Vote) (calls : List Confirmation) : Prop where
  only : ∀ c ∈ calls, c.Counts representative account height → c.vote env ∈ votes
  all : ∀ v ∈ votes, ∃ c ∈ calls, c.Counts representative account height ∧ c.vote env = v

-- Between them may come votes of others, and votes for other elections. The record may
-- have one of the votes from the start.
theorem votes_commute {s : Elections env} {account representative : Account} {e : Election env}
    {votes : Finset Vote} (hseated : s.Seated) (hget : s.elections.get account = some e)
    (hspaced : Spaced votes) (hvotes : votes.Nonempty)
    (hfresh : ∀ info, e.votes.get representative = some info →
      info.conflictFound = false ∧ info.lastVote ∈ votes) :
    ∃ v ∈ votes, (∀ w ∈ votes, w ≠ v → w.timestamp < v.timestamp) ∧
      ∀ calls, DeliversVotes env representative account e.height votes calls →
        ((s.deliverAll calls).recorded account representative).map RepVoteInfo.lastVote = some v ∧
        ∀ before, before <+: calls →
          ∀ info, (s.deliverAll before).recorded account representative = some info →
            info.conflictFound = false := by
  obtain ⟨v, hv, hgreatest⟩ := votes.exists_max_image (fun v => v.timestamp.toNat) hvotes
  refine ⟨v, hv, fun w hw hne => ?_, fun calls hcalls => ?_⟩
  · refine UInt64.lt_iff_toNat_lt.mpr (lt_of_le_of_ne (hgreatest w hw) fun heq => hne ?_)
    exact hspaced.eq_of_timestamp hw hv (UInt64.toNat_inj.mp heq)
  -- what the record shows after a part of the calls
  obtain ⟨seen, hseen, hstart⟩ : ∃ seen ⊆ votes, ShowsLatest seen (e.votes.get representative) := by
    cases hinfo : e.votes.get representative with
    | none => exact ⟨∅, Finset.empty_subset _, rfl⟩
    | some info =>
        obtain ⟨hclean, hmem⟩ := hfresh info hinfo
        refine ⟨{info.lastVote}, Finset.singleton_subset_iff.mpr hmem, hclean,
          Finset.mem_singleton_self _, fun w hw => ?_⟩
        rw [Finset.mem_singleton.mp hw]
        exact UInt64.le_refl _
  have hshows (part : List Confirmation) (hpart : ∀ c ∈ part, c ∈ calls) :
      ShowsLatest (seen ∪ ((part.filter fun c => c.Counts representative account e.height).map
        (Confirmation.vote env)).toFinset) ((s.deliverAll part).recorded account representative) := by
    rw [deliverAll_recorded part hseated hget]
    refine hstart.foldl hspaced hseen _ fun c hc => ?_
    obtain ⟨hmem, hcounts⟩ := List.mem_filter.mp hc
    exact hcalls.only c (hpart c hmem) (of_decide_eq_true hcounts)
  constructor
  · have hall := hshows calls fun _ hc => hc
    have hmem : v ∈ seen ∪ ((calls.filter fun c => c.Counts representative account e.height).map
        (Confirmation.vote env)).toFinset := by
      obtain ⟨c, hc, hcounts, hvote⟩ := hcalls.all v hv
      apply Finset.mem_union_right
      rw [List.mem_toFinset, List.mem_map]
      exact ⟨c, List.mem_filter.mpr ⟨hc, decide_eq_true hcounts⟩, hvote⟩
    cases hinfo : (s.deliverAll calls).recorded account representative with
    | none =>
        rw [hinfo] at hall
        have hempty : _ = ∅ := hall
        rw [hempty] at hmem
        cases hmem
    | some info =>
        rw [hinfo] at hall
        obtain ⟨-, hlast, hlatest⟩ := hall
        have hin : info.lastVote ∈ votes := by
          rcases Finset.mem_union.mp hlast with hold | hnew
          · exact hseen hold
          · obtain ⟨c, hc, hvote⟩ := List.mem_map.mp (List.mem_toFinset.mp hnew)
            obtain ⟨hmem, hcounts⟩ := List.mem_filter.mp hc
            exact hvote ▸ hcalls.only c hmem (of_decide_eq_true hcounts)
        have hle := hgreatest info.lastVote hin
        have hge := UInt64.le_iff_toNat_le.mp (hlatest v hmem)
        have hsame : info.lastVote = v :=
          hspaced.eq_of_timestamp hin hv (UInt64.toNat_inj.mp (le_antisymm hle hge))
        rw [Option.map_some, hsame]
  · intro before hprefix info hinfo
    have hpart := hshows before fun _ hc => hprefix.mem hc
    rw [hinfo] at hpart
    exact hpart.1

-- Two votes in an election that has none.
def distantVotes : Finset Vote := {⟨1000, 0, 1⟩, ⟨2000, 0, 2⟩}

def openElection : Election sampleEnv := Election.create 1 1 0 0

theorem distantVotes_commute : ∃ v ∈ distantVotes,
    (∀ w ∈ distantVotes, w ≠ v → w.timestamp < v.timestamp) ∧
      ∀ calls, DeliversVotes sampleEnv 7 1 1 distantVotes calls →
        (((slotStart.modify openElection).deliverAll calls).recorded 1 7).map
          RepVoteInfo.lastVote = some v ∧
        ∀ before, before <+: calls →
          ∀ info, ((slotStart.modify openElection).deliverAll before).recorded 1 7 = some info →
            info.conflictFound = false := by
  have hseated : slotStart.Seated := fun account e hget => nomatch hget
  have hspaced : Spaced distantVotes := by
    intro v hv w hw hne
    simp only [distantVotes, Finset.mem_insert, Finset.mem_singleton] at hv hw
    rcases hv with rfl | rfl
    · rcases hw with rfl | rfl
      · exact absurd rfl hne
      · decide
    · rcases hw with rfl | rfl
      · decide
      · exact absurd rfl hne
  have hget : (slotStart.modify openElection).elections.get 1 = some openElection :=
    (slotStart.modify_get openElection 1).trans (if_pos rfl)
  exact votes_commute (Elections.Seated.modify hseated) hget hspaced ⟨_, Finset.mem_insert_self _ _⟩
    fun info hinfo => nomatch hinfo

end Raicoin
