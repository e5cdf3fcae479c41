import Raicoin.Lib.Streaks
import Raicoin.Node.Election.StepSpec
import Raicoin.Node.Election.TallySpec
import Raicoin.Node.BlockProcessor.Replay

-- What the counters of an election know of its rounds.
namespace Raicoin

open Lib

section Rounds

variable {env : Env}

def ElectionRound.isBroadcast : ElectionRound → Bool
  | .broadcast => true
  | _ => false

-- The rounds that end a wait or a tally, the latest first: those that only broadcast are
-- left out.
def turns (account : Account) (history : ElectionHistory env) : List ElectionRound :=
  (rounds account history).filter fun round => !round.isBroadcast

-- A tally that confirms a block with the hash.
def ElectionRound.confirms (env : Env) (hash : BlockHash) : ElectionRound → Bool
  | .tally _ status => status.confirm && status.block.map env.hash = some hash
  | _ => false

-- A tally that a block with the hash wins, after the fork has been found.
def ElectionRound.wins (env : Env) (hash : BlockHash) : ElectionRound → Bool
  | .tally forkFound status => forkFound && status.win && status.block.map env.hash = some hash
  | _ => false

-- The counters after the turns: `wins` counts the streak of the winner in 32 bits.
structure Counting (turns : List ElectionRound) (e : Election env) : Prop where
  single : e.forkFound = false → e.wins = 0 ∧ e.confirms = 0
  wins : e.wins.toNat = streak (ElectionRound.wins env e.winner) turns % 2 ^ 32
  confirms : e.confirms.toNat ≤ streak (ElectionRound.confirms env e.winner) turns
  winner : ∀ hash, (turns.head?.any (ElectionRound.wins env hash)) = true → hash = e.winner

-- Less than enough to confirm.
def Election.Open (e : Election env) : Prop := e.confirms < FORK_ELECTION_ROUNDS_THRESHOLD

theorem Election.Open.of_confirms {e e' : Election env} (h : e.Open)
    (heq : e'.confirms = e.confirms) : e'.Open := by
  unfold Election.Open
  rw [heq]
  exact h

variable {list : List ElectionRound} {e e' : Election env}

theorem Counting.of_steady (h : Counting list e) (hwins : e'.wins = e.wins)
    (hconfirms : e'.confirms = e.confirms) (hwinner : e'.winner = e.winner)
    (hfork : e.forkFound = true → e'.forkFound = true) : Counting list e' := by
  constructor
  · intro hfound
    rw [hwins, hconfirms]
    refine h.single ?_
    cases hold : e.forkFound with
    | false => rfl
    | true =>
        rw [hfork hold] at hfound
        cases hfound
  · rw [hwins, hwinner]
    exact h.wins
  · rw [hconfirms, hwinner]
    exact h.confirms
  · rw [hwinner]
    exact h.winner

-- The counters are zero again.
theorem counting_reset (hwins : e.wins = 0) (hconfirms : e.confirms = 0) :
    Counting (.reset :: list) e := by
  constructor
  · exact fun _ => ⟨hwins, hconfirms⟩
  · rw [hwins, streak_cons_neg _ _ rfl]
    rfl
  · rw [hconfirms]
    exact Nat.zero_le _
  · intro hash hhead
    cases hhead

-- Before the fork is found the counters are not used.
theorem Counting.single_tally (h : Counting list e) (hsingle : e.forkFound = false)
    (status : ElectionStatus) : Counting (.tally false status :: list) e := by
  obtain ⟨hwins, hconfirms⟩ := h.single hsingle
  constructor
  · exact fun _ => ⟨hwins, hconfirms⟩
  · rw [hwins, streak_cons_neg _ _ rfl]
    rfl
  · rw [hconfirms]
    exact Nat.zero_le _
  · intro hash hhead
    cases hhead

theorem countRound_forkFound (e : Election env) (status : ElectionStatus) :
    (Elections.countRound e status).forkFound = e.forkFound := by
  unfold Elections.countRound
  dsimp only
  split
  · split <;> rfl
  · rfl

-- No one else has a streak when the winner changes.
theorem Counting.streak_other (h : Counting list e) {hash : BlockHash} (hne : hash ≠ e.winner) :
    streak (ElectionRound.wins env hash) list = 0 := by
  cases list with
  | nil => rfl
  | cons round list =>
      apply streak_cons_neg
      cases hwins : ElectionRound.wins env hash round with
      | false => rfl
      | true => exact absurd (h.winner hash hwins) hne

-- One round of the fork.
theorem Counting.count (h : Counting list e) (hfork : e.forkFound = true) (hopen : e.Open)
    (status : ElectionStatus) :
    Counting (.tally true status :: list) (Elections.countRound e status) := by
  have hsingle : (Elections.countRound e status).forkFound = false →
      (Elections.countRound e status).wins = 0 ∧ (Elections.countRound e status).confirms = 0 := by
    rw [countRound_forkFound, hfork]
    exact nofun
  refine ⟨hsingle, ?_, ?_, ?_⟩
  all_goals
    unfold Elections.countRound
    dsimp only
    rcases hwin : status.win with _ | _
  · rw [streak_cons_neg]
    · rfl
    · simp [ElectionRound.wins, hwin]
  · rcases hblock : status.block with _ | block
    · rw [streak_cons_neg]
      · rfl
      · simp [ElectionRound.wins, hblock]
    · dsimp only
      by_cases hsame : env.hash block = e.winner
      · rw [if_pos hsame]
        dsimp only
        rw [streak_cons_pos _ _ (by simp [ElectionRound.wins, hwin, hblock, hsame]),
          UInt32.toNat_add, h.wins]
        change (streak _ list % 2 ^ 32 + 1) % 2 ^ 32 = _
        omega
      · rw [if_neg hsame]
        dsimp only
        rw [streak_cons_pos _ _ (by simp [ElectionRound.wins, hwin, hblock]), h.streak_other hsame]
        rfl
  · exact Nat.zero_le _
  · rcases hblock : status.block with _ | block
    · exact Nat.zero_le _
    · dsimp only
      by_cases hsame : env.hash block = e.winner
      · rw [if_pos hsame]
        dsimp only
        cases hconfirm : status.confirm with
        | false => exact Nat.zero_le _
        | true =>
            rw [streak_cons_pos _ _ (by simp [ElectionRound.confirms, hconfirm, hblock, hsame])]
            have hlt := UInt32.lt_iff_toNat_lt.mp hopen
            have hthreshold : FORK_ELECTION_ROUNDS_THRESHOLD.toNat = 5 := rfl
            have hold := h.confirms
            rw [if_pos rfl, UInt32.toNat_add]
            change (e.confirms.toNat + 1) % 2 ^ 32 ≤ _
            omega
      · rw [if_neg hsame]
        dsimp only
        cases hconfirm : status.confirm with
        | false => exact Nat.zero_le _
        | true =>
            rw [streak_cons_pos _ _ (by simp [ElectionRound.confirms, hconfirm, hblock])]
            change 1 ≤ _
            omega
  · intro hash hhead
    simp [ElectionRound.wins, hwin] at hhead
  · rcases hblock : status.block with _ | block
    · intro hash hhead
      simp [ElectionRound.wins, hblock] at hhead
    · intro hash hhead
      have hhash : env.hash block = hash := by
        simpa [ElectionRound.wins, hwin, hblock] using hhead
      dsimp only
      by_cases hsame : env.hash block = e.winner
      · rw [if_pos hsame]
        exact hhash.symm.trans hsame
      · rw [if_neg hsame]
        exact hhash.symm

variable {s : Elections env} {account : Account} {r : Readings} {history : ElectionHistory env}

-- The round and what `ProcessElection` makes of the counters go together.
inductive Processes (s : Elections env) (e : Election env) (r : Readings) : Prop where
  | reset (hround : s.round e r = .reset)
      (hresult : ∀ e', (s.processElection e r).elections.elections.get e.account = some e' →
        e'.wins = 0 ∧ e'.confirms = 0)
      (hcalls : (s.processElection e r).calls = [])
  | broadcast (hround : s.round e r = .broadcast)
      (hresult : ∀ e', (s.processElection e r).elections.elections.get e.account = some e' →
        e.Steady e')
      (hcalls : ∀ b, .forceAppendBlock b ∉ (s.processElection e r).calls ∧
        (e.forkFound = true → .forceConfirmBlock b ∉ (s.processElection e r).calls))
  | single (status : ElectionStatus) (hround : s.round e r = .tally false status)
      (hsingle : e.forkFound = false)
      (hresult : ∀ e', (s.processElection e r).elections.elections.get e.account = some e' →
        e.Steady e')
      (hcalls : ∀ b, .forceAppendBlock b ∉ (s.processElection e r).calls)
  | fork (status : ElectionStatus) (e₁ : Election env) (hround : s.round e r = .tally true status)
      (hfork : e.forkFound = true) (hsteady : e.Steady e₁)
      (hresult : ∀ e', (s.processElection e r).elections.elections.get e.account = some e' →
        (Elections.countRound e₁ status).Steady e' ∧ (Elections.countRound e₁ status).Open)
      (hconfirm : ∀ b, .forceConfirmBlock b ∈ (s.processElection e r).calls →
        status.block = some b ∧ ¬(Elections.countRound e₁ status).Open)
      (happend : ∀ b, .forceAppendBlock b ∈ (s.processElection e r).calls →
        status.block = some b ∧
          (Elections.countRound e₁ status).wins = FORK_ELECTION_ROUNDS_THRESHOLD)

private theorem gone {e₁ : Election env} {s₁ : Elections env} (h : e₁.account = account)
    (hget : (s₁.erase_ e₁).elections.get account = some e') : False := by
  rw [Elections.erase_get, if_pos h.symm] at hget
  cases hget

private theorem stays {e₁ : Election env} {s₁ : Elections env} (h : e₁.account = account)
    (hget : (s₁.modify e₁).elections.get account = some e') : e' = e₁ := by
  rw [Elections.modify_get, if_pos h.symm] at hget
  cases hget
  rfl

private theorem countSingle_steady (e : Election env) (r : Readings) :
    e.Steady (Elections.countSingle e r) := by
  unfold Elections.countSingle
  split
  · exact ⟨rfl, rfl, rfl, rfl, rfl, id⟩
  · exact ⟨rfl, rfl, rfl, rfl, rfl, id⟩

-- Without a fork only a confirmation is forced.
private theorem processSingle_spec (s : Elections env) (e : Election env) (r : Readings)
    (status : ElectionStatus) :
    (∀ e', (s.processSingle e r status).elections.elections.get e.account = some e' → e.Steady e') ∧
      ∀ b, .forceAppendBlock b ∉ (s.processSingle e r status).calls := by
  have hsteady := countSingle_steady e r
  unfold Elections.processSingle
  split
  · refine ⟨fun e' hget => (gone rfl hget).elim, fun b hcall => ?_⟩
    obtain ⟨other, -, heq⟩ := List.mem_map.mp hcall
    cases heq
  · dsimp only
    split
    · refine ⟨fun e' hget => (gone hsteady.account hget).elim, fun b hcall => ?_⟩
      cases List.mem_singleton.mp hcall
    · exact ⟨fun e' hget => stays hsteady.account hget ▸ hsteady, fun b hcall => by cases hcall⟩

private theorem processFork_spec (s : Elections env) (e : Election env) (r : Readings)
    (status : ElectionStatus) :
    (∀ e', (s.processFork e r status).elections.elections.get e.account = some e' →
      (Elections.countRound e status).Steady e' ∧ (Elections.countRound e status).Open) ∧
    (∀ b, .forceConfirmBlock b ∈ (s.processFork e r status).calls →
      status.block = some b ∧ ¬(Elections.countRound e status).Open) ∧
    ∀ b, .forceAppendBlock b ∈ (s.processFork e r status).calls →
      status.block = some b ∧
        (Elections.countRound e status).wins = FORK_ELECTION_ROUNDS_THRESHOLD := by
  have haccount := (Elections.countRound_kept e status).1
  unfold Elections.processFork
  dsimp only
  split
  · rename_i hconfirms
    refine ⟨fun e' hget => (gone haccount hget).elim, fun b hcall => ?_, fun b hcall => ?_⟩
    · obtain ⟨other, hother, heq⟩ := List.mem_map.mp hcall
      cases heq
      exact ⟨Option.mem_toList.mp hother, fun hopen => UInt32.not_lt.mpr hconfirms hopen⟩
    · obtain ⟨other, -, heq⟩ := List.mem_map.mp hcall
      cases heq
  · rename_i hconfirms
    have hkept (wakeup : Int) : (Elections.countRound e status).Steady
        { Elections.countRound e status with wakeup } ∧ (Elections.countRound e status).Open :=
      ⟨⟨rfl, rfl, rfl, rfl, rfl, id⟩, UInt32.not_le.mp hconfirms⟩
    have haccount' (wakeup : Int) :
        ({ Elections.countRound e status with wakeup } : Election env).account = e.account := haccount
    refine ⟨fun e' hget => stays (haccount' _) hget ▸ hkept _, fun b hcall => ?_,
      fun b hcall => ?_⟩
    · dsimp only at hcall
      split at hcall
      · obtain ⟨other, -, heq⟩ := List.mem_map.mp hcall
        cases heq
      · cases hcall
    · dsimp only at hcall
      split at hcall
      · rename_i hwins
        obtain ⟨other, hother, heq⟩ := List.mem_map.mp hcall
        cases heq
        exact ⟨Option.mem_toList.mp hother, hwins⟩
      · cases hcall

private theorem broadcastConfirms_calls (e : Election env) (order : List Account) (b : Block) :
    .forceAppendBlock b ∉ e.broadcastConfirms_ order ∧
      .forceConfirmBlock b ∉ e.broadcastConfirms_ order := by
  have hforced (call : NodeCall) (hcall : call ∈ e.broadcastConfirms_ order) :
      call ≠ .forceAppendBlock b ∧ call ≠ .forceConfirmBlock b := by
    unfold Election.broadcastConfirms_ at hcall
    obtain ⟨⟨rep, info⟩, -, hcall⟩ := List.mem_flatMap.mp hcall
    dsimp only at hcall
    split at hcall
    · cases hcall
    split at hcall
    · cases List.mem_singleton.mp hcall
      exact ⟨nofun, nofun⟩
    split at hcall
    · cases List.mem_singleton.mp hcall
      exact ⟨nofun, nofun⟩
    split at hcall
    · cases List.mem_singleton.mp hcall
      exact ⟨nofun, nofun⟩
    split at hcall
    · cases List.mem_singleton.mp hcall
      exact ⟨nofun, nofun⟩
    · cases List.mem_singleton.mp hcall
      exact ⟨nofun, nofun⟩
  exact ⟨fun hcall => (hforced _ hcall).1 rfl, fun hcall => (hforced _ hcall).2 rfl⟩

-- A tally that failed ends the election.
private theorem processTally_error (s : Elections env) (e : Election env) (r : Readings)
    {status : ElectionStatus} (herror : status.error = true) :
    s.processTally e r status = ⟨s.erase_ e, [.electionTally e.account e.height]⟩ := by
  unfold Elections.processTally
  rw [if_pos herror]

private theorem processTally_single (s : Elections env) (e : Election env) (r : Readings)
    (status : ElectionStatus) (hsingle : e.forkFound = false) :
    (∀ e', (s.processTally e r status).elections.elections.get e.account = some e' → e.Steady e') ∧
      ∀ b, .forceAppendBlock b ∉ (s.processTally e r status).calls := by
  cases herror : status.error with
  | true =>
      rw [processTally_error s e r herror]
      exact ⟨fun e' hget => (gone rfl hget).elim,
        fun b hcall => by cases List.mem_singleton.mp hcall⟩
  | false =>
      unfold Elections.processTally
      rw [herror, if_neg (by decide), if_pos hsingle]
      exact processSingle_spec s e r status

private theorem processTally_broadcast (s : Elections env) (e : Election env) (r : Readings)
    (status : ElectionStatus) (hbroadcast : e.broadcast = true) :
    (∀ e', (s.processTally e r status).elections.elections.get e.account = some e' → e.Steady e') ∧
      ∀ b, .forceAppendBlock b ∉ (s.processTally e r status).calls ∧
        (e.forkFound = true → .forceConfirmBlock b ∉ (s.processTally e r status).calls) := by
  cases hfork : e.forkFound with
  | false =>
      obtain ⟨hsteady, hcalls⟩ := processTally_single s e r status hfork
      exact ⟨hsteady, fun b => ⟨hcalls b, nofun⟩⟩
  | true =>
      cases herror : status.error with
      | true =>
          rw [processTally_error s e r herror]
          exact ⟨fun e' hget => (gone rfl hget).elim,
            fun b => ⟨fun hcall => (by cases List.mem_singleton.mp hcall),
              fun _ hcall => by cases List.mem_singleton.mp hcall⟩⟩
      | false =>
          unfold Elections.processTally
          rw [herror, if_neg (by decide), if_neg (by rw [hfork]; decide), if_pos hbroadcast]
          dsimp only
          have hkept (wakeup : Int) : e.Steady { e with broadcast := false, wakeup } :=
            ⟨rfl, rfl, rfl, rfl, rfl, id⟩
          refine ⟨fun e' hget => stays (hkept _).account hget ▸ hkept _, fun b => ?_⟩
          obtain ⟨happend, hconfirm⟩ := broadcastConfirms_calls e r.order b
          constructor
          · intro hcall
            rcases List.mem_append.mp hcall with hmem | hmem
            · exact happend hmem
            · split at hmem <;> simp at hmem
          · intro _ hcall
            rcases List.mem_append.mp hcall with hmem | hmem
            · exact hconfirm hmem
            · split at hmem <;> simp at hmem

private theorem processTally_fork (s : Elections env) (e : Election env) (r : Readings)
    (status : ElectionStatus) (hfork : e.forkFound = true) (hbroadcast : e.broadcast = false) :
    (∀ e', (s.processTally e r status).elections.elections.get e.account = some e' →
      (Elections.countRound e status).Steady e' ∧ (Elections.countRound e status).Open) ∧
    (∀ b, .forceConfirmBlock b ∈ (s.processTally e r status).calls →
      status.block = some b ∧ ¬(Elections.countRound e status).Open) ∧
    ∀ b, .forceAppendBlock b ∈ (s.processTally e r status).calls →
      status.block = some b ∧
        (Elections.countRound e status).wins = FORK_ELECTION_ROUNDS_THRESHOLD := by
  cases herror : status.error with
  | true =>
      rw [processTally_error s e r herror]
      exact ⟨fun e' hget => (gone rfl hget).elim, fun b hcall => (by cases List.mem_singleton.mp hcall),
        fun b hcall => by cases List.mem_singleton.mp hcall⟩
  | false =>
      unfold Elections.processTally
      rw [herror, if_neg (by decide), hfork, if_neg (by decide), hbroadcast, if_neg (by decide)]
      exact processFork_spec s e r status

theorem processElection_processes (s : Elections env) (e : Election env) (r : Readings) :
    Processes s e r := by
  have hsteady := e.purgeOutdatedVotes_steady r.order r.purgeClock
  have hround : s.round e r = (if (s.tryConcurrency_ (e.purgeOutdatedVotes r.order r.purgeClock)).2
      then .reset
      else if (e.purgeOutdatedVotes r.order r.purgeClock).broadcast then .broadcast
      else .tally (e.purgeOutdatedVotes r.order r.purgeClock).forkFound
        ((s.tryConcurrency_ (e.purgeOutdatedVotes r.order r.purgeClock)).1.tally_
          (e.purgeOutdatedVotes r.order r.purgeClock) r.order r.tallyClock)) := rfl
  have hprocess : s.processElection e r =
      (if (s.tryConcurrency_ (e.purgeOutdatedVotes r.order r.purgeClock)).2 then
        ⟨(s.tryConcurrency_ (e.purgeOutdatedVotes r.order r.purgeClock)).1.modify
          (Elections.resetElection (e.purgeOutdatedVotes r.order r.purgeClock) r), []⟩
      else (s.tryConcurrency_ (e.purgeOutdatedVotes r.order r.purgeClock)).1.processTally
        (e.purgeOutdatedVotes r.order r.purgeClock) r
        ((s.tryConcurrency_ (e.purgeOutdatedVotes r.order r.purgeClock)).1.tally_
          (e.purgeOutdatedVotes r.order r.purgeClock) r.order r.tallyClock)) := rfl
  have hsame := e.purgeOutdatedVotes_forkFound r.order r.purgeClock
  generalize e.purgeOutdatedVotes r.order r.purgeClock = e₁ at hsteady hround hprocess hsame
  generalize (s.tryConcurrency_ e₁).1 = s₁ at hround hprocess
  generalize s₁.tally_ e₁ r.order r.tallyClock = status at hround hprocess
  cases hwaits : (s.tryConcurrency_ e₁).2 with
  | true =>
      rw [hwaits, if_pos rfl] at hround hprocess
      refine .reset hround (fun e' hget => ?_) (by rw [hprocess])
      rw [hprocess] at hget
      obtain rfl := stays (show (Elections.resetElection e₁ r).account = e.account from
        hsteady.account) hget
      exact ⟨rfl, rfl⟩
  | false =>
      rw [hwaits, if_neg (by decide)] at hround hprocess
      cases hbroadcast : e₁.broadcast with
      | true =>
          rw [hbroadcast, if_pos rfl] at hround
          obtain ⟨hresult, hcalls⟩ := processTally_broadcast s₁ e₁ r status hbroadcast
          rw [hsteady.account] at hresult
          rw [← hprocess] at hresult hcalls
          exact .broadcast hround (fun e' hget => hsteady.trans (hresult e' hget))
            fun b => ⟨(hcalls b).1, fun hfork => (hcalls b).2 (hsteady.forkFound hfork)⟩
      | false =>
          rw [hbroadcast, if_neg (by decide)] at hround
          cases hfork : e₁.forkFound with
          | false =>
              rw [hfork] at hround
              obtain ⟨hresult, hcalls⟩ := processTally_single s₁ e₁ r status hfork
              rw [hsteady.account] at hresult
              rw [← hprocess] at hresult hcalls
              exact .single status hround (hsame.symm.trans hfork)
                (fun e' hget => hsteady.trans (hresult e' hget)) hcalls
          | true =>
              rw [hfork] at hround
              obtain ⟨hresult, hconfirm, happend⟩ := processTally_fork s₁ e₁ r status hfork hbroadcast
              rw [hsteady.account] at hresult
              rw [← hprocess] at hresult hconfirm happend
              exact .fork status e₁ hround (hsame.symm.trans hfork) hsteady hresult hconfirm happend

theorem turns_process (hget : s.elections.get account = some e) :
    turns account ((s, .process account r) :: history) =
      if (s.round e r).isBroadcast then turns account history
      else s.round e r :: turns account history := by
  unfold turns
  rw [rounds, if_pos rfl, hget]
  dsimp only
  cases hround : (s.round e r).isBroadcast with
  | true => rw [List.filter_cons_of_neg (by simp [hround]), if_pos rfl]
  | false => rw [List.filter_cons_of_pos (by simp [hround]), if_neg (by decide)]

theorem Counting.processed (h : Counting (turns account history) e) (hopen : e.Open)
    (hget : s.elections.get account = some e) (haccount : e.account = account)
    (hresult : (s.processElection e r).elections.elections.get account = some e') :
    Counting (turns account ((s, .process account r) :: history)) e' ∧ e'.Open := by
  subst haccount
  rw [turns_process hget]
  cases processElection_processes s e r with
  | reset hround hreset _ =>
      obtain ⟨hwins, hconfirms⟩ := hreset e' hresult
      rw [hround]
      refine ⟨counting_reset hwins hconfirms, ?_⟩
      unfold Election.Open
      rw [hconfirms]
      decide
  | broadcast hround hkept _ =>
      have hsteady := hkept e' hresult
      rw [hround]
      exact ⟨h.of_steady hsteady.wins hsteady.confirms hsteady.winner hsteady.forkFound,
        hopen.of_confirms hsteady.confirms⟩
  | single status hround hsingle hkept _ =>
      have hsteady := hkept e' hresult
      rw [hround]
      exact ⟨(h.single_tally hsingle status).of_steady hsteady.wins hsteady.confirms hsteady.winner
        hsteady.forkFound, hopen.of_confirms hsteady.confirms⟩
  | fork status e₁ hround hfork hsteady hkept _ _ =>
      obtain ⟨hsteady', hopen'⟩ := hkept e' hresult
      have hopen₁ : e₁.Open := hopen.of_confirms hsteady.confirms
      have h₁ := h.of_steady hsteady.wins hsteady.confirms hsteady.winner hsteady.forkFound
      rw [hround]
      exact ⟨(h₁.count (hsteady.forkFound hfork) hopen₁ status).of_steady hsteady'.wins
        hsteady'.confirms hsteady'.winner hsteady'.forkFound, hopen'.of_confirms hsteady'.confirms⟩

-- The step lemma for the other actions.
theorem ElectionChange.counting {action : ElectionAction}
    (hchange : ElectionChange s account action e') (hseated : s.Seated)
    (hbefore : ∀ e, s.elections.get account = some e → Counting (turns account history) e ∧ e.Open) :
    Counting (turns account ((s, action) :: history)) e' ∧ e'.Open := by
  have hsteady {e : Election env} (hget : s.elections.get account = some e) (h : e.Steady e') :
      Counting (turns account history) e' ∧ e'.Open :=
    ⟨(hbefore e hget).1.of_steady h.wins h.confirms h.winner h.forkFound,
      (hbefore e hget).2.of_confirms h.confirms⟩
  cases hchange with
  | @fresh delay steady first rest hadd =>
      have hkept := Election.addBlocks_steady (Election.create account first.height delay steady :
        Election env) steady (first :: rest)
      unfold turns
      rw [rounds, hadd]
      refine ⟨⟨fun _ => ⟨hkept.wins, hkept.confirms⟩, ?_, ?_, fun hash hhead => by cases hhead⟩, ?_⟩
      · rw [hkept.wins]
        rfl
      · rw [hkept.confirms]
        exact Nat.zero_le _
      · exact Election.Open.of_confirms (show Election.Open (Election.create account first.height
          delay steady : Election env) from (by decide : (0 : UInt32) < 5)) hkept.confirms
  | added hget hadd =>
      unfold turns
      rw [rounds, hadd]
      exact hsteady hget (Election.addBlocks_steady _ _ _)
  | voted hget _ =>
      exact hsteady hget ((Election.addRepVoteInfo_steady _ _ _).trans
        (Election.addBlock_steady _ _ _))
  | contradicted hget _ _ =>
      exact hsteady hget (((Election.addRepVoteInfo_steady _ _ _).trans
        (Election.addConflict_steady _ _ _)).trans (Election.addBlock_steady _ _ _))
  | revoted hget _ _ =>
      exact hsteady hget (((Election.delBlock_steady _ _).trans
        (Election.addRepVoteInfo_steady _ _ _)).trans (Election.addBlock_steady _ _ _))
  | reported hget _ => exact hsteady hget (Election.addConflicting_steady _ _ _ _ _ _ _ _)
  | reportedVoter hget _ _ =>
      exact hsteady hget ((Election.delBlock_steady _ _).trans
        (Election.addConflicting_steady _ _ _ _ _ _ _ _))
  | purged hget => exact hsteady hget (Election.purgeOutdatedVotes_steady _ _ _)
  | @processed e _ r hget hresult =>
      obtain ⟨hcounting, hopen⟩ := hbefore e hget
      exact hcounting.processed hopen hget (hseated _ _ hget) hresult

-- Messages force nothing.
private theorem processConfirm_append (s : Elections env) (steady : Int) (rep : Account)
    (timestamp : UInt64) (signature : Signature) (block : Block) (weight : Amount) (b : Block) :
    .forceAppendBlock b ∉ (s.processConfirm steady rep timestamp signature block weight).calls := by
  intro hcall
  unfold Elections.processConfirm at hcall
  split at hcall
  · cases hcall
  split at hcall
  · cases hcall
  dsimp only at hcall
  split at hcall
  · dsimp only at hcall
    split at hcall <;> simp at hcall
  split at hcall
  · cases hcall
  split at hcall
  · dsimp only at hcall
    split at hcall
    · split at hcall <;> simp at hcall
    · cases hcall
  split at hcall
  · cases hcall
  · dsimp only at hcall
    split at hcall <;> simp at hcall

private theorem processConflict_append (s : Elections env) (steady : Int) (rep : Account)
    (timestampFirst timestampSecond : UInt64) (signatureFirst signatureSecond : Signature)
    (blockFirst blockSecond : Block) (weight : Amount) (b : Block) :
    .forceAppendBlock b ∉ (s.processConflict steady rep timestampFirst timestampSecond signatureFirst
      signatureSecond blockFirst blockSecond weight).calls := by
  have hreport (e : Election env) (voteFirst voteSecond : Vote) :
      .forceAppendBlock b ∉ (s.addConflictingVotes e steady rep voteFirst voteSecond blockFirst
        blockSecond weight).calls := by
    unfold Elections.addConflictingVotes
    dsimp only
    split <;> simp
  unfold Elections.processConflict
  split
  · simp
  dsimp only
  by_cases hagree : checkConflict_ ⟨timestampFirst, signatureFirst, env.hash blockFirst⟩
      ⟨timestampSecond, signatureSecond, env.hash blockSecond⟩ = false
  · rw [if_pos hagree]
    simp
  rw [if_neg hagree]
  split
  · simp
  split
  · simp
  split
  · simp [hreport]
  · split <;> simp [hreport]

-- The run lemma.
theorem run_counting {allowed : ElectionHistory env → Elections env → Prop}
    (h : (electionMachine env).Run allowed history s) : s.Seated ∧
    ∀ account e, s.elections.get account = some e → Counting (turns account history) e ∧ e.Open := by
  apply h.invariant (P := fun history s => s.Seated ∧ ∀ account e,
    s.elections.get account = some e → Counting (turns account history) e ∧ e.Open)
  · intro s hstart
    have hnone (account : Account) (e : Election env) : ¬s.elections.get account = some e := by
      rw [show s.elections = .empty from hstart, Table.get_empty]
      exact nofun
    exact ⟨fun account e hget => absurd hget (hnone account e),
      fun account e hget => absurd hget (hnone account e)⟩
  · intro history s action _ _ _ ⟨hseated, hcounting⟩
    refine ⟨hseated.take action, fun account e' hget => ?_⟩
    rcases Elections.take_get hseated hget with ⟨hold, hidle⟩ | hchange
    · have hturns : turns account ((s, action) :: history) = turns account history := by
        unfold turns
        rw [hidle.rounds history]
      rw [hturns]
      exact hcounting account e' hold
    · exact hchange.counting hseated (hcounting account)

-- Only `ProcessElection` has a block appended by force.
theorem append_process {action : ElectionAction} {b : Block}
    (hcall : .forceAppendBlock b ∈ (s.take action).calls) : ∃ account r e,
      action = .process account r ∧ s.elections.get account = some e ∧
        .forceAppendBlock b ∈ (s.processElection e r).calls := by
  cases action with
  | add => cases hcall
  | confirm steady rep timestamp signature block weight =>
      exact absurd hcall (processConfirm_append s steady rep timestamp signature block weight b)
  | conflict steady rep timestampFirst timestampSecond signatureFirst signatureSecond blockFirst
      blockSecond weight =>
      exact absurd hcall (processConflict_append s steady rep timestampFirst timestampSecond
        signatureFirst signatureSecond blockFirst blockSecond weight b)
  | weights => cases hcall
  | purge account order clock =>
      rw [Elections.take] at hcall
      split at hcall <;> cases hcall
  | process account r =>
      rw [Elections.take] at hcall
      cases hget : s.elections.get account with
      | none =>
          rw [hget] at hcall
          cases hcall
      | some e =>
          rw [hget] at hcall
          exact ⟨account, r, e, rfl, hget, hcall⟩

-- Counters above zero are those of the block that has just won.
theorem countRound_winner {status : ElectionStatus} {b : Block} (hblock : status.block = some b)
    (hcount : (Elections.countRound e status).wins ≠ 0 ∨
      (Elections.countRound e status).confirms ≠ 0) :
    (Elections.countRound e status).winner = env.hash b := by
  unfold Elections.countRound at hcount ⊢
  dsimp only at hcount ⊢
  rw [hblock] at hcount ⊢
  cases hwin : status.win with
  | false =>
      rw [hwin] at hcount
      rcases hcount with h | h <;> exact absurd rfl h
  | true =>
      dsimp only
      by_cases hsame : env.hash b = e.winner
      · rw [if_pos hsame]
        exact hsame.symm
      · rw [if_neg hsame]

-- A fork is confirmed when the latest tallies have all confirmed the block, with no wait
-- between them. It is appended at the end of a streak of wins that counts to the
-- threshold in 32 bits, so not twice within 2 ^ 32 rounds of a streak.
theorem forced_after_streak {allowed : ElectionHistory env → Elections env → Prop}
    (h : (electionMachine env).Run allowed history s) (action : ElectionAction) (b : Block) :
    (∀ account r e, action = .process account r → s.elections.get account = some e →
      e.forkFound = true → .forceConfirmBlock b ∈ (s.take action).calls →
      ((turns account ((s, action) :: history)).take
        FORK_ELECTION_ROUNDS_THRESHOLD.toNat).length = FORK_ELECTION_ROUNDS_THRESHOLD.toNat ∧
      ∀ round ∈ (turns account ((s, action) :: history)).take FORK_ELECTION_ROUNDS_THRESHOLD.toNat,
        round.confirms env (env.hash b) = true) ∧
    (.forceAppendBlock b ∈ (s.take action).calls → ∃ account r, action = .process account r ∧
      streak (ElectionRound.wins env (env.hash b)) (turns account ((s, action) :: history)) % 2 ^ 32 =
        FORK_ELECTION_ROUNDS_THRESHOLD.toNat ∧
      ∀ new old, turns account ((s, action) :: history) = new ++ old →
        (∀ round ∈ new, ElectionRound.wins env (env.hash b) round = true) → 0 < new.length →
        new.length < 2 ^ 32 → streak (ElectionRound.wins env (env.hash b)) old % 2 ^ 32 ≠
          FORK_ELECTION_ROUNDS_THRESHOLD.toNat) := by
  obtain ⟨hseated, hcounting⟩ := run_counting h
  constructor
  · rintro account r e rfl hget hfork hcall
    obtain ⟨hbefore, hopen⟩ := hcounting account e hget
    rw [Elections.take, hget] at hcall
    dsimp only at hcall
    apply of_le_streak
    rw [turns_process hget]
    cases processElection_processes s e r with
    | reset _ _ hcalls =>
        rw [hcalls] at hcall
        cases hcall
    | broadcast _ _ hcalls => exact absurd hcall ((hcalls b).2 hfork)
    | single _ _ hsingle _ _ =>
        rw [hfork] at hsingle
        cases hsingle
    | fork status e₁ hround _ hsteady _ hconfirm _ =>
        obtain ⟨hblock, hclosed⟩ := hconfirm b hcall
        have hcount := (hbefore.of_steady hsteady.wins hsteady.confirms hsteady.winner
          hsteady.forkFound).count (hsteady.forkFound hfork) (hopen.of_confirms hsteady.confirms) status
        have hfive := UInt32.le_iff_toNat_le.mp (UInt32.not_lt.mp hclosed)
        have hwinner := countRound_winner hblock (.inr fun hzero => by
          rw [hzero] at hfive
          exact absurd hfive (by decide))
        rw [hround]
        exact hfive.trans (hwinner ▸ hcount.confirms)
  · intro hcall
    obtain ⟨account, r, e, rfl, hget, hcall⟩ := append_process hcall
    obtain ⟨hbefore, hopen⟩ := hcounting account e hget
    have hstreak : streak (ElectionRound.wins env (env.hash b))
        (turns account ((s, .process account r) :: history)) % 2 ^ 32 =
          FORK_ELECTION_ROUNDS_THRESHOLD.toNat := by
      rw [turns_process hget]
      cases processElection_processes s e r with
      | reset _ _ hcalls =>
          rw [hcalls] at hcall
          cases hcall
      | broadcast _ _ hcalls => exact absurd hcall (hcalls b).1
      | single _ _ _ _ hcalls => exact absurd hcall (hcalls b)
      | fork status e₁ hround hfork hsteady _ _ happend =>
          obtain ⟨hblock, hwins⟩ := happend b hcall
          have hcount := (hbefore.of_steady hsteady.wins hsteady.confirms hsteady.winner
            hsteady.forkFound).count (hsteady.forkFound hfork) (hopen.of_confirms hsteady.confirms)
            status
          have hwinner := countRound_winner hblock (.inl fun hzero => by
            rw [hzero] at hwins
            exact absurd hwins (by decide))
          have hstreak := hcount.wins
          rw [hwins, hwinner] at hstreak
          rw [hround]
          exact hstreak.symm
    refine ⟨account, r, rfl, hstreak, fun new old hturns hall hpos hless hold => ?_⟩
    rw [hturns, streak_append _ old hall] at hstreak
    omega

end Rounds

-- A fork that one block keeps winning without a quorum: the representative with 60% of the
-- weight votes for it again and again, the other one is silent.
section Again

def forkBlock : Block := genesisBlock .test

def rivalBlock : Block :=
  sampleTx .send 512 1 TEST_EPOCH_TIMESTAMP 0 (genesisPublicKey .test) 0 0 0 1

def forkHash : BlockHash := sampleEnv.hash forkBlock

def forkAccount : Account := genesisPublicKey .test

def twoReps : Table Account Amount := (Table.empty.put 1 60).put 2 40

def voteTime (n : Nat) : UInt64 := UInt64.ofNat (1600000000 + 64 * n)

def voteInfo (n : Nat) : RepVoteInfo := ⟨false, 60, voteTime n, 0, forkHash⟩

-- The votes after `n` of them, and the references to the block: one is from its addition.
def votesAfter : Nat → Table Account RepVoteInfo
  | 0 => .empty
  | n + 1 => Table.empty.put 1 (voteInfo n)

def refsAfter : Nat → UInt32
  | 0 => 1
  | _ + 1 => 2

-- After `n` wins and `votes` votes.
structure Contest (n votes : Nat) (broadcast : Bool) (s : Elections sampleEnv)
    (e : Election sampleEnv) : Prop where
  get : s.elections.get forkAccount = some e
  account : e.account = forkAccount
  height : e.height = forkBlock.height
  forks : forkAccount ∈ s.forks
  weights : s.weights = twoReps
  onlineReps : s.onlineReps = {1, 2}
  weightTotal : s.weightTotal = 100
  weightOnline : s.weightOnline = 100
  forkFound : e.forkFound = true
  isBroadcast : e.broadcast = broadcast
  wins : e.wins = UInt32.ofNat n
  confirms : e.confirms = 0
  winner : 0 < n → e.winner = forkHash
  block : e.blocks.get forkHash = some ⟨refsAfter votes, forkBlock⟩
  isVotes : e.votes = votesAfter votes

theorem weightFactor_recent {info : RepVoteInfo} {now : UInt64}
    (hpast : info.lastVote.timestamp.toNat ≤ now.toNat)
    (hrecent : now.toNat < info.lastVote.timestamp.toNat + 160) (hlarge : 320 ≤ now.toNat)
    (hsmall : now.toNat < 2 ^ 63) : info.weightFactor now 160 = 100 := by
  have hsub : (now - 160).toNat = now.toNat - 160 :=
    UInt64.toNat_sub_of_le _ _ (UInt64.le_iff_toNat_le.mpr (by change 160 ≤ _; omega))
  have hsub' : (now - 320).toNat = now.toNat - 320 :=
    UInt64.toNat_sub_of_le _ _ (UInt64.le_iff_toNat_le.mpr hlarge)
  have hadd : (now + 160).toNat = now.toNat + 160 := by
    rw [UInt64.toNat_add]
    exact Nat.mod_eq_of_lt (by change now.toNat + 160 < 2 ^ 64; omega)
  have hexpired : ¬info.lastVote.timestamp ≤ now - 160 * 2 := by
    rw [UInt64.le_iff_toNat_le, show (160 : UInt64) * 2 = 320 by decide, hsub']
    omega
  have hold : ¬info.lastVote.timestamp ≤ now - 160 := by
    rw [UInt64.le_iff_toNat_le, hsub]
    omega
  have hfull : info.lastVote.timestamp ≤ now + 160 := by
    rw [UInt64.le_iff_toNat_le, hadd]
    omega
  unfold RepVoteInfo.weightFactor
  rw [if_neg (by decide)]
  simp only [hexpired, hold, hfull, if_false, if_true]
  decide

theorem voteTime_toNat {n : Nat} (h : n < 2 ^ 40) : (voteTime n).toNat = 1600000000 + 64 * n :=
  UInt64.toNat_ofNat_of_lt' (by change 1600000000 + 64 * n < 2 ^ 64; omega)

theorem forkBlock_account : forkBlock.account = forkAccount := rfl

-- What adding the block once more does while the fork is known.
private theorem addBlock_again {s : Elections sampleEnv} {e : Election sampleEnv} {refs : UInt32}
    (hfork : e.forkFound = true) (hblock : e.blocks.get forkHash = some ⟨refs, forkBlock⟩)
    (steady : Int) :
    s.addBlock_ e steady forkBlock =
      (s.modify { e with blocks := e.blocks.put forkBlock (refs + 1) },
        { e with blocks := e.blocks.put forkBlock (refs + 1) }) := by
  have hadd : e.addBlock steady forkBlock =
      { e with blocks := e.blocks.put forkBlock (refs + 1) } := by
    unfold Election.addBlock
    rw [show sampleEnv.hash forkBlock = forkHash from rfl, hblock]
  unfold Elections.addBlock_
  dsimp only
  rw [hadd, hfork, if_neg (by decide)]

-- The new vote stands, and the block is added once more.
private theorem Contest.voted {n votes : Nat} {s : Elections sampleEnv} {e : Election sampleEnv}
    (h : Contest n votes true s e) (steady : Int) {refs : UInt32} {blocks : ElectionBlocks sampleEnv}
    (hblock : blocks.get forkHash = some ⟨refs, forkBlock⟩)
    (hrefs : refs + 1 = refsAfter (votes + 1)) :
    ∃ e', Contest n (votes + 1) true
      (s.addBlock_ { e with blocks, votes := votesAfter (votes + 1) } steady forkBlock).1 e' := by
  rw [addBlock_again (e := { e with blocks, votes := votesAfter (votes + 1) }) h.forkFound hblock]
  have hget : (blocks.put forkBlock (refs + 1)).get forkHash =
      some ⟨refsAfter (votes + 1), forkBlock⟩ := by
    rw [← hrefs]
    exact (ElectionBlocks.get_put _ _ _ _).trans (if_pos rfl)
  exact ⟨_, ⟨(Table.get_put _ _ _ _).trans (if_pos h.account.symm), h.account, h.height, h.forks,
    h.weights, h.onlineReps, h.weightTotal, h.weightOnline, h.forkFound, h.isBroadcast, h.wins,
    h.confirms, h.winner, hget, rfl⟩⟩

-- The last vote is taken back, and its reference with it.
private theorem Contest.delBlock {n votes : Nat} {s : Elections sampleEnv} {e : Election sampleEnv}
    (h : Contest n (votes + 1) true s e) : ∃ blocks, e.delBlock forkHash = { e with blocks } ∧
      blocks.get forkHash = some ⟨1, forkBlock⟩ := by
  unfold Election.delBlock
  rw [h.block]
  dsimp only [refsAfter]
  rw [if_neg (by decide), if_neg fun hzero => absurd hzero.1 (by decide)]
  exact ⟨e.blocks.put forkBlock 1, rfl, (ElectionBlocks.get_put _ _ _ _).trans (if_pos rfl)⟩

-- A vote 64 seconds after the last one is no conflict with it.
private theorem checkConflict_later {n : Nat} (hn : n + 1 < 2 ^ 40) :
    checkConflict_ (voteInfo n).lastVote (voteInfo (n + 1)).lastVote = false ∧
      ¬(voteInfo n).lastVote.timestamp ≥ voteTime (n + 1) := by
  have hlast : (voteInfo n).lastVote.timestamp.toNat = 1600000000 + 64 * n :=
    voteTime_toNat (by omega)
  have hnext : (voteInfo (n + 1)).lastVote.timestamp.toNat = 1600000000 + 64 * (n + 1) :=
    voteTime_toNat hn
  have hearlier : ¬(voteInfo n).lastVote.timestamp ≥ (voteInfo (n + 1)).lastVote.timestamp := by
    rw [ge_iff_le, UInt64.le_iff_toNat_le, hlast, hnext]
    omega
  have hdiff : ((voteInfo (n + 1)).lastVote.timestamp - (voteInfo n).lastVote.timestamp).toNat =
      64 := by
    rw [UInt64.toNat_sub_of_le, hlast, hnext]
    · omega
    · rw [UInt64.le_iff_toNat_le, hlast, hnext]
      omega
  refine ⟨?_, hearlier⟩
  unfold checkConflict_
  rw [if_neg fun hsame => hearlier (UInt64.le_of_eq hsame.1.symm),
    if_neg fun hless => hearlier (UInt64.le_of_lt hless)]
  dsimp only
  rw [decide_eq_false_iff_not, UInt64.lt_iff_toNat_lt, hdiff]
  decide

-- The representative votes again.
theorem Contest.vote {n : Nat} {s : Elections sampleEnv} {e : Election sampleEnv}
    (h : Contest n n true s e) (hn : n < 2 ^ 40) (steady : Int) :
    ∃ e', Contest n (n + 1) true
      (s.processConfirm steady 1 (voteTime n) 0 forkBlock 60).elections e' := by
  unfold Elections.processConfirm
  rw [forkBlock_account, h.get]
  dsimp only
  rw [if_neg (not_not.mpr h.height), h.isVotes]
  have hvotes : e.votes.put 1 (voteInfo n) = votesAfter (n + 1) := by
    rw [h.isVotes]
    cases n with
    | zero => rfl
    | succ n =>
        apply Table.ext
        intro k
        rw [votesAfter, votesAfter, Table.get_put, Table.get_put, Table.get_put]
        split <;> rfl
  cases n with
  | zero =>
      rw [show (votesAfter 0).get 1 = none from Table.get_empty _]
      obtain ⟨e', h'⟩ := h.voted steady h.block rfl
      rw [← hvotes] at h'
      exact ⟨e', h'⟩
  | succ n =>
      obtain ⟨hagree, hlater⟩ := checkConflict_later hn
      obtain ⟨blocks, hdel, hblock⟩ := h.delBlock
      obtain ⟨e', h'⟩ := h.voted steady hblock rfl
      rw [← hvotes] at h'
      rw [show (votesAfter (n + 1)).get 1 = some (voteInfo n) from
        (Table.get_put _ _ _ _).trans (if_pos rfl)]
      dsimp only
      rw [show (voteInfo n).conflictFound = false from rfl, if_neg (by decide)]
      refine ⟨e', ?_⟩
      rw [show (⟨voteTime (n + 1), 0, sampleEnv.hash forkBlock⟩ : Vote) =
        (voteInfo (n + 1)).lastVote from rfl, hagree, if_neg (by decide), if_neg hlater,
        show (voteInfo n).lastVote.hash = forkHash from rfl, hdel]
      exact h'

-- The clocks of a round: `late` seconds after the vote.
def roundReadings (n late : Nat) : Readings :=
  let now := UInt64.ofNat (1600000000 + 64 * n + late)
  ⟨[1], fun _ => now, fun _ => now, 64 * n + late, fun _ => 0, false⟩

private theorem recent {n late : Nat} (hn : n < 2 ^ 40) (hlate : late < 64) (rep : Account) :
    (voteInfo n).weightFactor ((roundReadings n late).purgeClock rep) 160 = 100 ∧
      (voteInfo n).weightFactor ((roundReadings n late).tallyClock rep) 160 = 100 := by
  have hvote : (voteInfo n).lastVote.timestamp.toNat = 1600000000 + 64 * n := voteTime_toNat hn
  have hclock : ((roundReadings n late).purgeClock rep).toNat = 1600000000 + 64 * n + late :=
    UInt64.toNat_ofNat_of_lt' (by change 1600000000 + 64 * n + late < 2 ^ 64; omega)
  have hfactor : (voteInfo n).weightFactor ((roundReadings n late).purgeClock rep) 160 = 100 := by
    apply weightFactor_recent
    all_goals omega
  exact ⟨hfactor, hfactor⟩

variable {n m late : Nat} {broadcast : Bool} {s : Elections sampleEnv} {e : Election sampleEnv}

theorem Contest.timeDiff (h : Contest n m broadcast s e) : e.timeDiff = 160 := by
  unfold Election.timeDiff
  rw [h.forkFound]
  decide

private theorem Contest.entries (h : Contest n (m + 1) broadcast s e) :
    e.votes.entriesIn [1] = [(1, voteInfo m)] := by
  rw [h.isVotes]
  unfold Table.entriesIn
  rw [show votesAfter (m + 1) = Table.empty.put 1 (voteInfo m) from rfl]
  simp [Table.get_put]

-- Nothing is purged.
theorem Contest.purge (h : Contest n (m + 1) broadcast s e) (hm : m < 2 ^ 40) (hlate : late < 64) :
    e.purgeOutdatedVotes (roundReadings m late).order (roundReadings m late).purgeClock = e := by
  have hnone : e.outdated (roundReadings m late).order (roundReadings m late).purgeClock = [] := by
    unfold Election.outdated
    rw [show (roundReadings m late).order = [1] from rfl, h.entries, h.timeDiff]
    apply List.filter_eq_nil_iff.mpr
    intro entry hentry
    cases List.mem_singleton.mp hentry
    dsimp only
    rw [(recent hm hlate 1).1]
    simp
  unfold Election.purgeOutdatedVotes
  rw [hnone]
  rfl

-- Its turn has come already.
theorem Contest.tryConcurrency (h : Contest n m broadcast s e) :
    ∃ s', s.tryConcurrency_ e = (s', false) ∧ Contest n m broadcast s' e := by
  unfold Elections.tryConcurrency_
  rw [h.forkFound, if_pos rfl]
  dsimp only
  rw [if_pos (h.account ▸ h.forks)]
  exact ⟨_, rfl, ⟨h.get, h.account, h.height, h.forks, h.weights, h.onlineReps, h.weightTotal,
    h.weightOnline, h.forkFound, h.isBroadcast, h.wins, h.confirms, h.winner, h.block, h.isVotes⟩⟩

def contestStatus : ElectionStatus :=
  ⟨false, true, false, 60, 0, 0, 40, some forkBlock⟩

-- The 60% win, and confirm nothing.
theorem Contest.tally (h : Contest n (m + 1) broadcast s e) (hm : m < 2 ^ 40) (hlate : late < 64) :
    s.tally_ e (roundReadings m late).order (roundReadings m late).tallyClock = contestStatus := by
  have hvotes : s.tallyVotes e [1] (roundReadings m late).tallyClock =
      ⟨[(forkHash, 60)], 60, 0, 0⟩ := by
    unfold Elections.tallyVotes
    rw [h.entries, h.timeDiff, List.foldl_cons, List.foldl_nil]
    unfold Elections.tallyVote
    rw [h.weights, show twoReps.get 1 = some 60 by decide]
    dsimp only
    rw [(recent hm hlate 1).2, show adjustWeight 60 100 = 60 by decide]
    rfl
  have hnotVoting : s.notVoting e = 40 := by
    unfold Elections.notVoting
    have hkeys : e.votes.keys = {1} := by
      ext rep
      rw [h.isVotes, Table.mem_keys, show votesAfter (m + 1) = Table.empty.put 1 (voteInfo m) from
        rfl]
      simp [Table.get_put]
    rw [h.onlineReps, hkeys, h.weights]
    decide
  unfold Elections.tally_
  dsimp only
  rw [show (roundReadings m late).order = [1] from rfl, hvotes, hnotVoting]
  change s.tallyStatus e ⟨[(forkHash, 60)], 60, 0, 0⟩ 40 [(forkHash, 60)] = _
  unfold Elections.tallyStatus Elections.enoughOnlineWeight_
  dsimp only
  rw [h.weightTotal, h.weightOnline, h.block]
  rfl

-- A round is as far as the tally what it was the last time.
private theorem Contest.process (h : Contest n (m + 1) broadcast s e) (hm : m < 2 ^ 40)
    (hlate : late < 64) : ∃ s', Contest n (m + 1) broadcast s' e ∧
      s.processElection e (roundReadings m late) =
        s'.processTally e (roundReadings m late) contestStatus ∧
      s.round e (roundReadings m late) =
        if broadcast then .broadcast else .tally true contestStatus := by
  obtain ⟨s', hturn, h'⟩ := h.tryConcurrency
  refine ⟨s', h', ?_, ?_⟩
  · unfold Elections.processElection
    dsimp only
    rw [h.purge hm hlate, hturn]
    dsimp only
    rw [if_neg (by decide), h'.tally hm hlate]
  · unfold Elections.round
    dsimp only
    rw [h.purge hm hlate, hturn]
    dsimp only
    rw [if_neg (by decide), h'.tally hm hlate, h.isBroadcast, h.forkFound]

-- Only the counters change.
private theorem Contest.modify (h : Contest n m broadcast s e) {n' : Nat}
    {broadcast' : Bool} (e' : Election sampleEnv) (haccount : e'.account = e.account)
    (hheight : e'.height = e.height) (hfork : e'.forkFound = e.forkFound) (hblocks : e'.blocks = e.blocks)
    (hvotes : e'.votes = e.votes) (hwins : e'.wins = UInt32.ofNat n') (hconfirms : e'.confirms = 0)
    (hwinner : 0 < n' → e'.winner = forkHash) (hbroadcast : e'.broadcast = broadcast') :
    Contest n' m broadcast' (s.modify e') e' where
  get := (Elections.modify_get _ _ _).trans (if_pos (haccount.trans h.account).symm)
  account := haccount.trans h.account
  height := hheight.trans h.height
  forks := h.forks
  weights := h.weights
  onlineReps := h.onlineReps
  weightTotal := h.weightTotal
  weightOnline := h.weightOnline
  forkFound := hfork.trans h.forkFound
  isBroadcast := hbroadcast
  wins := hwins
  confirms := hconfirms
  winner := hwinner
  block := by
    rw [hblocks]
    exact h.block
  isVotes := hvotes.trans h.isVotes

-- First the votes are broadcast.
theorem Contest.broadcastRound (h : Contest n (m + 1) true s e) (hm : m < 2 ^ 40) :
    (∃ e', Contest n (m + 1) false (s.processElection e (roundReadings m 0)).elections e') ∧
      s.round e (roundReadings m 0) = .broadcast := by
  obtain ⟨s', h', hprocess, hround⟩ := h.process hm (show 0 < 64 by decide)
  refine ⟨?_, hround⟩
  rw [hprocess]
  unfold Elections.processTally
  rw [show contestStatus.error = false from rfl, if_neg (by decide),
    if_neg (by rw [h.forkFound]; decide), if_pos h.isBroadcast]
  dsimp only
  exact ⟨_, h'.modify _ rfl rfl rfl rfl rfl h.wins h.confirms h.winner rfl⟩

-- Then they are counted: one more win, and nothing is confirmed.
theorem Contest.tallyRound (h : Contest n (m + 1) false s e) (hm : m < 2 ^ 40) :
    (∃ e', Contest (n + 1) (m + 1) true (s.processElection e (roundReadings m 32)).elections e') ∧
      s.round e (roundReadings m 32) = .tally true contestStatus ∧
      (UInt32.ofNat (n + 1) = FORK_ELECTION_ROUNDS_THRESHOLD →
        .forceAppendBlock forkBlock ∈ (s.processElection e (roundReadings m 32)).calls) := by
  obtain ⟨s', h', hprocess, hround⟩ := h.process hm (show 32 < 64 by decide)
  have hcount : (Elections.countRound e contestStatus).wins = UInt32.ofNat (n + 1) ∧
      (Elections.countRound e contestStatus).confirms = 0 ∧
      (Elections.countRound e contestStatus).winner = forkHash := by
    unfold Elections.countRound
    dsimp only [contestStatus]
    by_cases hsame : sampleEnv.hash forkBlock = e.winner
    · rw [if_pos hsame]
      dsimp only
      rw [h.wins]
      exact ⟨(UInt32.ofNat_add n 1).symm, rfl, hsame.symm⟩
    · have hzero : n = 0 := Nat.eq_zero_of_not_pos fun hpos => hsame (h.winner hpos).symm
      subst hzero
      rw [if_neg hsame]
      exact ⟨rfl, rfl, rfl⟩
  obtain ⟨hwins, hconfirms, hwinner⟩ := hcount
  obtain ⟨haccount, -, hblocks, hvotes, -⟩ := Elections.countRound_kept e contestStatus
  have hheight : (Elections.countRound e contestStatus).height = e.height ∧
      (Elections.countRound e contestStatus).broadcast = true := by
    unfold Elections.countRound
    dsimp only [contestStatus]
    split <;> exact ⟨rfl, rfl⟩
  have hresult : s'.processTally e (roundReadings m 32) contestStatus =
      ⟨s'.modify { Elections.countRound e contestStatus with
          wakeup := (Elections.countRound e contestStatus).nextWakeup_ (roundReadings m 32).steady
            (roundReadings m 32).random },
        if UInt32.ofNat (n + 1) = FORK_ELECTION_ROUNDS_THRESHOLD then
          [.forceAppendBlock forkBlock] else []⟩ := by
    unfold Elections.processTally
    rw [show contestStatus.error = false from rfl, if_neg (by decide),
      if_neg (by rw [h.forkFound]; decide), if_neg (by rw [h.isBroadcast]; decide)]
    unfold Elections.processFork
    dsimp only
    rw [hwins, hconfirms, if_neg (by decide)]
    rfl
  rw [hprocess, hresult]
  refine ⟨?_, hround, fun hfive => ?_⟩
  · have hfork := countRound_forkFound e contestStatus
    dsimp only
    generalize Elections.countRound e contestStatus = e₁ at *
    exact ⟨_, h'.modify { e₁ with wakeup := _ } haccount hheight.1 hfork hblocks hvotes hwins
      hconfirms (fun _ => hwinner) hheight.2⟩
  · dsimp only
    rw [if_pos hfive]
    exact List.mem_singleton.mpr rfl

def contestStart : Elections sampleEnv :=
  ⟨0, {1, 2}, 100, 100, twoReps, .empty, 4, ∅, ∅⟩

def contestAdd : ElectionAction := .add 0 0 [forkBlock, rivalBlock]

def contestElection : Election sampleEnv :=
  ((Election.create forkAccount forkBlock.height 0 0).addBlock 0 forkBlock).addBlock 0 rivalBlock

theorem rival_differs : sampleEnv.hash rivalBlock ≠ sampleEnv.hash forkBlock := by decide +kernel

-- The second block makes it a fork.
theorem contestElection_eq : contestElection =
    { (Election.create forkAccount forkBlock.height 0 0 : Election sampleEnv) with
      forkFound := true
      wakeup := FORK_ELECTION_DELAY
      blocks := (ElectionBlocks.empty.put forkBlock 1).put rivalBlock 1 } := by
  have hrival := rival_differs
  have hfirst : (Election.create forkAccount forkBlock.height 0 0 : Election sampleEnv).addBlock 0
      forkBlock = { (Election.create forkAccount forkBlock.height 0 0 : Election sampleEnv) with
        blocks := ElectionBlocks.empty.put forkBlock 1 } := by
    unfold Election.addBlock
    rw [show (Election.create _ _ 0 0 : Election sampleEnv).blocks.get _ = none from
      ElectionBlocks.get_empty _]
    dsimp only
    rw [if_neg fun hsize => absurd hsize.2 (Nat.lt_irrefl 1)]
    rfl
  have hsize : ((ElectionBlocks.empty.put forkBlock 1).put rivalBlock 1 :
      ElectionBlocks sampleEnv).size > 1 := by
    apply Finset.one_lt_card.mpr
    refine ⟨sampleEnv.hash forkBlock, ?_, sampleEnv.hash rivalBlock, ?_, hrival.symm⟩
    · exact (Table.mem_keys _ _).mpr ⟨⟨1, forkBlock⟩, (ElectionBlocks.get_put _ _ _ _).trans
        ((if_neg hrival.symm).trans ((ElectionBlocks.get_put _ _ _ _).trans (if_pos rfl)))⟩
    · exact (Table.mem_keys _ _).mpr ⟨⟨1, rivalBlock⟩, (ElectionBlocks.get_put _ _ _ _).trans
        (if_pos rfl)⟩
  unfold contestElection
  rw [hfirst]
  unfold Election.addBlock
  dsimp only
  rw [ElectionBlocks.get_put, if_neg hrival, ElectionBlocks.get_empty]
  dsimp only
  rw [if_pos ⟨rfl, hsize⟩]
  rfl

theorem contest_start :
    (∃ e, Contest 0 0 true (contestStart.take contestAdd).elections e) ∧
      turns forkAccount [(contestStart, contestAdd)] = [] := by
  have hsame : ¬∃ b ∈ [forkBlock, rivalBlock], b.account ≠ forkBlock.account ∨
      b.height ≠ forkBlock.height := by
    simp only [List.mem_cons, List.not_mem_nil, or_false, exists_eq_or_imp, exists_eq_left,
      ne_eq, not_true_eq_false, false_or, not_or, not_not]
    decide
  have hnone : contestStart.elections.get forkAccount = none := Table.get_empty _
  have haddition : contestStart.addition forkAccount [forkBlock, rivalBlock] = .fresh := by
    rw [Elections.addition, if_neg (by rw [not_or]; exact ⟨hsame, fun hne => hne rfl⟩), hnone]
  have hrival := rival_differs.symm
  constructor
  · have hfork : contestElection.forkFound = true := by rw [contestElection_eq]
    have haccount : contestElection.account = forkAccount := by rw [contestElection_eq]; rfl
    have hadd : (contestStart.take contestAdd).elections =
        ((contestStart.modify contestElection).tryConcurrency_ contestElection).1 := by
      rw [contestAdd, Elections.take]
      dsimp only
      unfold Elections.add
      dsimp only
      rw [if_neg hsame, show contestStart.elections.get forkBlock.account = none from hnone,
        List.foldl_cons, List.foldl_cons, List.foldl_nil]
      exact if_pos hfork
    have hturn : ((contestStart.modify contestElection).tryConcurrency_ contestElection).1 =
        { contestStart.modify contestElection with forks := {forkAccount} } := by
      unfold Elections.tryConcurrency_
      rw [hfork, haccount]
      rfl
    rw [hadd, hturn]
    refine ⟨contestElection, (Table.get_put _ _ _ _).trans (if_pos haccount.symm), haccount, ?_,
      Finset.mem_singleton.mpr rfl, rfl, rfl, rfl, rfl, hfork, ?_, ?_, ?_,
      fun hfalse => (by cases hfalse), ?_, ?_⟩
    · rw [contestElection_eq]
      rfl
    · rw [contestElection_eq]
      rfl
    · rw [contestElection_eq]
      rfl
    · rw [contestElection_eq]
      rfl
    · rw [contestElection_eq]
      exact (ElectionBlocks.get_put _ _ _ _).trans ((if_neg hrival).trans
        ((ElectionBlocks.get_put _ _ _ _).trans (if_pos rfl)))
    · rw [contestElection_eq]
      rfl
  · unfold turns
    rw [contestAdd, rounds, haddition]
    rfl

theorem Contest.fits (h : Contest n (m + 1) broadcast s e) (late : Nat) :
    (electionMachine sampleEnv).fits s (.process forkAccount (roundReadings m late)) := by
  intro e' hget
  obtain rfl : e = e' := Option.some.inj (h.get.symm.trans hget)
  refine ⟨List.nodup_singleton 1, fun rep info hinfo => ?_⟩
  rw [h.isVotes] at hinfo
  by_cases hrep : rep = 1
  · exact List.mem_singleton.mpr hrep
  · rw [show votesAfter (m + 1) = Table.empty.put 1 (voteInfo m) from rfl, Table.get_put,
      if_neg hrep, Table.get_empty] at hinfo
    cases hinfo

-- A vote and the round in which it is broadcast.
private theorem Contest.next {history : ElectionHistory sampleEnv}
    (hrun : (electionMachine sampleEnv).Run (fun _ _ => True) history s) (h : Contest n n true s e)
    (hn : n < 2 ^ 40) : ∃ (history' : ElectionHistory sampleEnv) (s' : Elections sampleEnv)
      (e' : Election sampleEnv), (electionMachine sampleEnv).Run (fun _ _ => True) history' s' ∧
        Contest n (n + 1) false s' e' ∧ turns forkAccount history' = turns forkAccount history := by
  obtain ⟨e₁, h₁⟩ := h.vote hn (64 * n)
  have hrun₁ := hrun.step (show (electionMachine sampleEnv).fits s
    (.confirm (64 * n) 1 (voteTime n) 0 forkBlock 60) from trivial) trivial
  obtain ⟨⟨e₂, h₂⟩, hround⟩ := h₁.broadcastRound hn
  have hrun₂ := hrun₁.step (h₁.fits 0) trivial
  refine ⟨_, _, e₂, hrun₂, ?_, ?_⟩
  · dsimp only [electionMachine, Elections.take]
    rw [h₁.get]
    exact h₂
  · refine (turns_process h₁.get).trans ?_
    rw [hround]
    rfl

private theorem run_first {action : ElectionAction} (hstart : s.elections = .empty)
    (hfits : s.Fits action) : (electionMachine sampleEnv).Run (fun _ _ => True) [(s, action)]
      (s.take action).elections :=
  (Machine.Run.start (m := electionMachine sampleEnv) hstart trivial).step hfits trivial

-- Each round is won, one after the other.
theorem wins_reached (n : Nat) (hn : n < 2 ^ 40) : ∃ (history : ElectionHistory sampleEnv)
    (s : Elections sampleEnv) (e : Election sampleEnv),
      (electionMachine sampleEnv).Run (fun _ _ => True) history s ∧ Contest n n true s e ∧
      turns forkAccount history = List.replicate n (.tally true contestStatus) := by
  induction n with
  | zero =>
      obtain ⟨⟨e, h⟩, hturns⟩ := contest_start
      have hfits : contestStart.Fits contestAdd := by
        rw [contestAdd]
        exact trivial
      exact ⟨_, _, e, run_first rfl hfits, h, hturns⟩
  | succ n ih =>
      obtain ⟨history, s, e, hrun, h, hturns⟩ := ih (by omega)
      obtain ⟨history₁, s₁, e₁, hrun₁, h₁, hturns₁⟩ := h.next hrun (by omega)
      obtain ⟨⟨e₂, h₂⟩, hround, -⟩ := h₁.tallyRound (by omega)
      have hrun₂ := hrun₁.step (h₁.fits 32) trivial
      refine ⟨_, _, e₂, hrun₂, ?_, ?_⟩
      · dsimp only [electionMachine, Elections.take]
        rw [h₁.get]
        exact h₂
      · rw [turns_process h₁.get, hround, hturns₁, hturns]
        rfl

-- The streak of the rounds that have been won.
private theorem streak_won (n : Nat) :
    streak (ElectionRound.wins sampleEnv (sampleEnv.hash forkBlock))
      (List.replicate n (.tally true contestStatus)) = n := by
  have hwins : ElectionRound.wins sampleEnv (sampleEnv.hash forkBlock)
      (.tally true contestStatus) = true := by
    simp [ElectionRound.wins, contestStatus]
  induction n with
  | zero => rfl
  | succ n ih => rw [List.replicate_succ, streak_cons_pos _ _ hwins, ih]

-- The next round is won too, and forces the block when the count says so.
theorem append_reached (n : Nat) (hn : n < 2 ^ 40)
    (hfive : UInt32.ofNat (n + 1) = FORK_ELECTION_ROUNDS_THRESHOLD) :
    ∃ (history : ElectionHistory sampleEnv) (s : Elections sampleEnv) (r : Readings),
      (electionMachine sampleEnv).Run (fun _ _ => True) history s ∧
      .forceAppendBlock forkBlock ∈ (s.take (.process forkAccount r)).calls ∧
      streak (ElectionRound.wins sampleEnv (sampleEnv.hash forkBlock))
        (turns forkAccount ((s, .process forkAccount r) :: history)) = n + 1 := by
  obtain ⟨history, s, e, hrun, h, hturns⟩ := wins_reached n hn
  obtain ⟨history₁, s₁, e₁, hrun₁, h₁, hturns₁⟩ := h.next hrun hn
  obtain ⟨-, hround, hcall⟩ := h₁.tallyRound hn
  refine ⟨history₁, s₁, roundReadings n 32, hrun₁, ?_, ?_⟩
  · rw [Elections.take, h₁.get]
    exact hcall hfive
  · rw [turns_process h₁.get, hround, hturns₁, hturns]
    exact streak_won (n + 1)

theorem forced_after_streak_sample : ∃ (history : ElectionHistory sampleEnv)
    (s : Elections sampleEnv) (action : ElectionAction) (account : Account) (r : Readings),
      action = .process account r ∧
      streak (ElectionRound.wins sampleEnv (sampleEnv.hash forkBlock))
        (turns account ((s, action) :: history)) % 2 ^ 32 =
          FORK_ELECTION_ROUNDS_THRESHOLD.toNat := by
  obtain ⟨history, s, r, hrun, hcall, -⟩ := append_reached 4 (by decide) (by decide)
  obtain ⟨account, r', haction, hstreak, -⟩ := (forced_after_streak hrun _ forkBlock).2 hcall
  exact ⟨history, s, _, account, r', haction, hstreak⟩

-- After 2 ^ 32 more wins the block is appended by force for the second time in the streak.
theorem append_again : ∃ (history : ElectionHistory sampleEnv) (s : Elections sampleEnv)
    (r : Readings), (electionMachine sampleEnv).Run (fun _ _ => True) history s ∧
      .forceAppendBlock forkBlock ∈ (s.take (.process forkAccount r)).calls ∧
      streak (ElectionRound.wins sampleEnv (sampleEnv.hash forkBlock))
        (turns forkAccount ((s, .process forkAccount r) :: history)) = 2 ^ 32 + 5 :=
  append_reached (2 ^ 32 + 4) (by decide) (by decide)

end Again

end Raicoin
