import Raicoin.Node.Bootstrap.Runs
import Raicoin.Node.BlockProcessor.Replay

-- A bootstrap session makes progress, whatever the server sends.
namespace Raicoin

open Lib

section Positions

variable {p q r : EntryPosition}

theorem EntryPosition.Before.trans (h : p.Before q) (h' : q.Before r) : p.Before r := by
  unfold EntryPosition.Before at *
  rcases h with h | ⟨h, hheight⟩
  · rcases h' with h' | ⟨h', -⟩
    · exact .inl (BitVec.lt_trans h h')
    · exact .inl (h' ▸ h)
  · rcases h' with h' | ⟨h', hheight'⟩
    · exact .inl (h ▸ h')
    · exact .inr ⟨h.trans h', Nat.lt_trans hheight hheight'⟩

theorem EntryPosition.Before.of_not_before (h : p.Before q) (h' : ¬r.Before q) : p.Before r := by
  unfold EntryPosition.Before at *
  rw [not_or, not_and] at h'
  obtain ⟨haccount, hheight⟩ := h'
  by_cases heq : q.1 = r.1
  · have hle := hheight heq.symm
    rcases h with h | ⟨h, hlt⟩
    · exact .inl (heq ▸ h)
    · exact .inr ⟨h.trans heq, by omega⟩
  · have hlt : q.1 < r.1 := by
      rw [BitVec.lt_def] at haccount ⊢
      have hne : q.1.toNat ≠ r.1.toNat := fun hsame => heq (BitVec.eq_of_toNat_eq hsame)
      omega
    exact EntryPosition.Before.trans h (.inl hlt)

-- The next account, or none after the last one.
theorem account_succ (account : Account) : account < account + 1 ∨ account + 1 = 0 := by
  have hlt := account.isLt
  have hone : (1 : Account).toNat = 1 := by decide
  by_cases hlast : account.toNat + 1 < 2 ^ 256
  · left
    rw [BitVec.lt_def, BitVec.toNat_add, hone, Nat.mod_eq_of_lt hlast]
    omega
  · right
    apply BitVec.eq_of_toNat_eq
    have hsum : account.toNat + 1 = 2 ^ 256 := by omega
    rw [BitVec.toNat_add, hone, hsum, Nat.mod_self]
    rfl

end Positions

section Rounds

variable {env : Env} {history : BootstrapHistory} {s : BootstrapState}

-- What has been accepted is below the cursor, unless the cursor has wrapped around.
structure Increasing (positions : List EntryPosition) (c : BootstrapClient) : Prop where
  sorted : positions.Pairwise fun later earlier => earlier.Before later
  below : c.cursor ≠ (0, 0) → ∀ p ∈ positions, p.Before c.cursor
  plain : c.type ≠ .fork → c.nextHeight = 0
  last : c.type = .fork → 0 < c.currSize → ∃ block, (c.forks (c.currSize - 1)).first = some block ∧
    c.next = (if block.height < 2 ^ 64 - 1 then block.account else block.account + 1) ∧
    c.nextHeight = if block.height < 2 ^ 64 - 1 then UInt64.ofNat (block.height + 1) else 0

variable {positions : List EntryPosition} {c c' : BootstrapClient}

theorem Increasing.untouched (h : Increasing positions c) (hsame : c.Untouched c') :
    Increasing positions c' := by
  have hcursor : c'.cursor = c.cursor := by
    rw [BootstrapClient.cursor, hsame.next, hsame.nextHeight]
    rfl
  constructor
  · exact h.sorted
  · rw [hcursor]
    exact h.below
  · rw [hsame.type, hsame.nextHeight]
    exact h.plain
  · rw [hsame.type, hsame.currSize, hsame.first, hsame.next, hsame.nextHeight]
    exact h.last

-- An entry that is not below the cursor is above all that was accepted before it.
theorem Increasing.above (h : Increasing positions c) {p : EntryPosition}
    (hcursor : positions ≠ [] → c.cursor ≠ (0, 0)) (hp : ¬p.Before c.cursor) :
    ∀ q ∈ positions, q.Before p := fun q hq =>
  (h.below (hcursor (List.ne_nil_of_mem hq)) q hq).of_not_before hp

theorem Increasing.accepted (h : Increasing positions c) {p : EntryPosition}
    (hcursor : positions ≠ [] → c.cursor ≠ (0, 0)) (hp : ¬p.Before c.cursor)
    (hnext : c'.cursor ≠ (0, 0) → p.Before c'.cursor)
    (hplain : c'.type ≠ .fork → c'.nextHeight = 0)
    (hlast : c'.type = .fork → 0 < c'.currSize → ∃ block,
      (c'.forks (c'.currSize - 1)).first = some block ∧
      c'.next = (if block.height < 2 ^ 64 - 1 then block.account else block.account + 1) ∧
      c'.nextHeight = if block.height < 2 ^ 64 - 1 then UInt64.ofNat (block.height + 1) else 0) :
    Increasing (p :: positions) c' where
  sorted := List.pairwise_cons.mpr ⟨h.above hcursor hp, h.sorted⟩
  below hc q hq := by
    have hpc := hnext hc
    rcases List.mem_cons.mp hq with rfl | hq
    · exact hpc
    · exact (h.above hcursor hp q hq).trans hpc
  plain := hplain
  last := hlast

-- A fork that passes the checks is not below the cursor.
private theorem fork_not_before (h : Increasing positions c) (htype : c.type = .fork) {block : Block}
    (hnext : ¬block.account < c.next) (hlast : c.LastBelow block)
    (hfirst : c.currSize = 0 → block.account = c.next → c.nextHeight.toNat ≤ block.height) :
    ¬EntryPosition.Before (block.account, block.height) c.cursor := by
  rintro (hlt | ⟨heq, hheight⟩)
  · exact hnext hlt
  change block.height < c.nextHeight.toNat at hheight
  by_cases hsize : c.currSize = 0
  · have hle := hfirst hsize heq
    omega
  · obtain ⟨before, hbefore, haccount, hplace⟩ := h.last htype (by omega)
    have hbelow := hlast (by omega) heq
    rw [hbefore, Option.map_some, Option.getD_some] at hbelow
    have hlimit := block.height_lt
    rw [if_pos (by omega)] at hplace
    rw [hplace, UInt64.toNat_ofNat_of_lt' (show before.height + 1 < 2 ^ 64 by omega)] at hheight
    omega

-- After the last place, the height of the last fork refuses the others of the first account.
private theorem refused_of_wrapped (h : Increasing positions c) (htype : c.type = .fork)
    {block : Block} (hsize : 0 < c.currSize) (haccount : block.account = c.next)
    (hcursor : c.cursor = (0, 0)) : ¬c.LastBelow block := by
  intro hlast
  obtain ⟨before, hbefore, -, hheight⟩ := h.last htype hsize
  have hbelow := hlast hsize haccount
  rw [hbefore, Option.map_some, Option.getD_some] at hbelow
  have hlimit := block.height_lt
  have hzero : c.nextHeight.toNat = 0 := congrArg Prod.snd hcursor
  rw [hheight, if_pos (by omega),
    UInt64.toNat_ofNat_of_lt' (show before.height + 1 < 2 ^ 64 by omega)] at hzero
  omega

theorem BootstrapClient.cursor_withFork (c : BootstrapClient) (first second : Block)
    (h : (c.withFork first second).cursor ≠ (0, 0)) :
    EntryPosition.Before (first.account, first.height) (c.withFork first second).cursor := by
  have hlimit := first.height_lt
  unfold cursor withFork at *
  dsimp only at *
  split
  · right
    refine ⟨rfl, ?_⟩
    rw [UInt64.toNat_ofNat_of_lt' (show first.height + 1 < 2 ^ 64 by omega)]
    omega
  · rename_i hlast
    rw [if_neg hlast, if_neg hlast] at h
    rcases account_succ first.account with hlt | hzero
    · exact .inl hlt
    · rw [hzero] at h
      exact absurd rfl h

private theorem withFork_first (c : BootstrapClient) (first second : Block) :
    ((c.withFork first second).forks c.currSize).first = some first :=
  congrArg BootstrapFork.first (Function.update_self c.currSize _ c.forks)

theorem Increasing.round (h : Increasing (acceptedPositions env history) s.session.client)
    (horderly : s.session.Orderly env (acceptedPositions env history)) :
    Increasing (acceptedPositions env ((s, .round) :: history)) (s.take env .round).session.client := by
  obtain ⟨s', hround, htaken⟩ := s.session.round_taken env
  have htake : s.take env .round = { s with session := s' } := by
    rw [BootstrapState.take, hround]
  rw [acceptedPositions, htake]
  dsimp only
  cases htaken with
  | quiet hsame =>
      rw [if_neg (by rw [hsame.currSize]; omega)]
      exact h.untouched hsame
  | @account account htype hfront hnext hsize hclient =>
      have hwrapped : acceptedPositions env history ≠ [] → s.session.client.cursor ≠ (0, 0) :=
        fun hsome hcursor => htype ((horderly _ hfront).1 hsome hcursor).1
      have hplain := h.plain htype
      have hposition : s'.client.positionAt s.session.client.currSize = (account.account, 0) := by
        rw [BootstrapClient.positionAt, hclient]
        dsimp only
        split
        · rw [Function.update_self]
        · rw [Function.update_self]
        · exact absurd ‹_› htype
      rw [if_pos (by rw [hclient]), hposition]
      refine h.accepted hwrapped ?_ ?_ ?_ ?_
      · rintro (hlt | ⟨-, hheight⟩)
        · exact hnext hlt
        · change 0 < s.session.client.nextHeight.toNat at hheight
          rw [hplain] at hheight
          exact absurd hheight (by decide)
      · rw [hclient]
        intro hcursor
        rcases account_succ account.account with hlt | hzero
        · exact .inl hlt
        · refine absurd ?_ hcursor
          rw [BootstrapClient.cursor]
          dsimp only
          rw [hzero, hplain]
          rfl
      · rw [hclient]
        exact fun _ => hplain
      · rw [hclient]
        exact fun hfork => absurd hfork htype
  | @fork c first second htype hfront hsame hnext hlast hsize hclient =>
      obtain ⟨hwrapped, hbatch⟩ := horderly _ hfront
      have hcursor : c.cursor = s.session.client.cursor := by
        rw [BootstrapClient.cursor, hsame.next, hsame.nextHeight]
        rfl
      have hincreasing := h.untouched hsame
      have hfork : c.type = .fork := hsame.type.trans htype
      have hposition : s'.client.positionAt s.session.client.currSize =
          (first.account, first.height) := by
        have hfirst := withFork_first c first second
        rw [hclient, ← hsame.currSize, BootstrapClient.positionAt,
          show (c.withFork first second).type = .fork from hfork]
        dsimp only
        rw [hfirst]
      have hcurrSize : s'.client.currSize = s.session.client.currSize + 1 := by
        rw [hclient, ← hsame.currSize]
        rfl
      rw [if_pos hcurrSize, hposition, hclient]
      refine hincreasing.accepted ?_ ?_ (c.cursor_withFork first second) ?_ ?_
      · intro hsome hzero
        obtain ⟨-, hsize, haccount⟩ := hwrapped hsome (hcursor ▸ hzero)
        rw [← hsame.currSize] at hsize
        rw [← hsame.next] at haccount
        exact refused_of_wrapped hincreasing hfork hsize haccount hzero hlast
      · refine fork_not_before hincreasing hfork hnext hlast ?_
        rw [hsame.currSize, hsame.next, hsame.nextHeight]
        exact hbatch htype
      · exact fun hother => absurd hfork hother
      · exact fun _ _ => ⟨first, withFork_first c first second, rfl, rfl⟩

theorem Increasing.take (h : Increasing (acceptedPositions env history) s.session.client)
    {action : BootstrapAction}
    (horderly : OrderlyRounds env ((s, action) :: history) (s.take env action)) :
    Increasing (acceptedPositions env ((s, action) :: history))
      (s.take env action).session.client := by
  cases action with
  | begin_ => exact ⟨h.sorted, h.below, h.plain, fun _ hpos => absurd hpos (Nat.lt_irrefl 0)⟩
  | round => exact h.round horderly
  | end_ =>
      change Increasing (acceptedPositions env history) s.session.end_.client
      unfold BootstrapSession.end_
      split
      · exact h
      · exact ⟨h.sorted, h.below, h.plain, h.last⟩
  | pause => exact ⟨h.sorted, h.below, h.plain, h.last⟩

-- Whatever comes from the server, no array is left. In sessions where nothing is let in behind the
-- last place, and no batch of forks begins with a lower height of the cursor's account, the
-- positions only grow.
theorem positions_increase (env : Env) :
    (∀ history s, (bootstrapMachine env).Run (fun _ _ => True) history s → s.outside = none) ∧
    ∀ history s, (bootstrapMachine env).Run (OrderlyRounds env) history s →
      (acceptedPositions env history).Pairwise fun later earlier => earlier.Before later := by
  constructor
  · intro history s h
    apply h.invariant (P := fun _ s => s.outside = none)
    · exact fun s hstart => hstart.2.2
    · intro history s action _ _ _ ih
      cases action with
      | begin_ => exact ih
      | round =>
          obtain ⟨s', hround, -⟩ := s.session.round_taken env
          change (s.take env .round).outside = none
          rw [BootstrapState.take, hround]
          exact ih
      | end_ => exact ih
      | pause => exact ih
  · intro history s h
    have hincreasing : Increasing (acceptedPositions env history) s.session.client := by
      apply h.invariant (P := fun history s =>
        Increasing (acceptedPositions env history) s.session.client)
      · rintro s ⟨⟨type, hclient⟩, -, -⟩
        rw [hclient]
        refine ⟨List.Pairwise.nil, ?_, fun _ => rfl, fun _ hpos => absurd hpos (Nat.lt_irrefl 0)⟩
        intro _ p hp
        cases hp
      · intro history s action _ _ horderly ih
        exact ih.take horderly
    exact hincreasing.sorted

end Rounds

section Samples

-- A fork of an account at a height, and the end of a batch.
private def forkBytes (height : UInt64) : List UInt8 :=
  let first := (sampleTx .change 1 1 0 height 1 0 0 0 0).serialize
  let second := (sampleTx .change 1 1 1 height 1 0 0 0 0).serialize
  streamWrite (UInt16.ofNat (first.length + second.length)) ++ first ++ second

private def twoForks (first second : UInt64) : BootstrapState :=
  ⟨⟨.create .fork, forkBytes first ++ [0, 0] ++ forkBytes second ++ [0, 0]⟩, false, none⟩

-- Two batches of one fork each.
private def twoRuns : List BootstrapAction :=
  [.begin_, .round, .round, .end_, .begin_, .round, .round, .end_]

private theorem twoRuns_run {allowed : BootstrapHistory → BootstrapState → Prop}
    (first second : UInt64)
    (hfits : ∀ n (h : n < twoRuns.length), ((bootstrapMachine sampleEnv).exec
      (twoForks first second) (twoRuns.take n)).2.Fits twoRuns[n])
    (hallowed : ∀ n ≤ twoRuns.length,
      allowed ((bootstrapMachine sampleEnv).exec (twoForks first second) (twoRuns.take n)).1
        ((bootstrapMachine sampleEnv).exec (twoForks first second) (twoRuns.take n)).2) :
    (bootstrapMachine sampleEnv).Run allowed
      ((bootstrapMachine sampleEnv).exec (twoForks first second) twoRuns).1
      ((bootstrapMachine sampleEnv).exec (twoForks first second) twoRuns).2 :=
  Machine.exec_run_of_fits ⟨⟨.fork, rfl⟩, rfl, rfl⟩ hfits hallowed

-- A server that ends the batch after each fork can send the same one again.
theorem replayed_fork_accepted : ∃ (history : BootstrapHistory) (s : BootstrapState),
    (bootstrapMachine sampleEnv).Run (fun _ _ => True) history s ∧
      acceptedPositions sampleEnv history = [(1, 0), (1, 0)] ∧
      ¬(acceptedPositions sampleEnv history).Pairwise fun later earlier => earlier.Before later := by
  have hpositions : acceptedPositions sampleEnv
      ((bootstrapMachine sampleEnv).exec (twoForks 0 0) twoRuns).1 = [(1, 0), (1, 0)] := by
    decide +kernel
  refine ⟨_, _, twoRuns_run 0 0 (by decide +kernel) fun _ _ => trivial, hpositions, ?_⟩
  rw [hpositions]
  decide

theorem positions_increase_sample : (acceptedPositions sampleEnv
    ((bootstrapMachine sampleEnv).exec (twoForks 0 1) twoRuns).1).Pairwise
      fun later earlier => earlier.Before later := by
  exact (positions_increase sampleEnv).2 _ _
    (twoRuns_run 0 1 (by decide +kernel) (by decide +kernel))

end Samples

end Raicoin
