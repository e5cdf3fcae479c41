import Raicoin.Node.BlockQuery

-- Which acknowledgements count in a query for a block.
namespace Raicoin

open Lib

-- What is known of a query that was sent to `asked` when it was last sent.
structure BlockQuery.Tracks (asked : List QueryFrom) (q : BlockQuery) : Prop where
  nodes : q.ack.length = q.from_.length
  unsent : q.count = 0 → asked = [] ∧ ∀ ack ∈ q.ack, ack.status = .pending
  sent : q.count ≠ 0 → asked = q.from_ ∧ q.from_ ≠ []
  specified : q.onlySpecifiedNode = true → q.from_ ≠ []

def BlockQuery.Awaits (q : BlockQuery) : Prop := ∀ ack ∈ q.ack, ack.status = .pending

def BlockQuery.Answered (q : BlockQuery) : Prop :=
  q.count ≠ 0 ∧ ∀ ack ∈ q.ack, ack.status ≠ .pending

def HeldQuery.Ready (held : HeldQuery) : Prop :=
  match held.stage with
  | .inserting | .sending => held.query.Awaits
  | .waking => True
  | .answered => held.query.Answered

namespace BlockQueries

-- Every query that is there tracks the nodes that it was sent to.
structure Sound (asked : UInt64 → List QueryFrom) (s : BlockQueries) : Prop where
  stored : ∀ sequence q, s.queries.get sequence = some q → q.sequence = sequence ∧
    q.Tracks (asked sequence) ∧ (q.count ≠ 0 → ∃ ack ∈ q.ack, ack.status = .pending)
  held : ∀ held ∈ s.held, held.query.Tracks (asked held.query.sequence) ∧ held.Ready

-- Each query is there once from when it was made until it is finished.
structure Counted (made finished : List UInt64) (s : BlockQueries) : Prop where
  live : ∀ sequence, s.live sequence = if sequence ∈ made ∧ sequence ∉ finished then 1 else 0
  finished : ∀ sequence ∈ finished, sequence ∈ made

variable {s : BlockQueries} {asked asked' : UInt64 → List QueryFrom} {made finished : List UInt64}
  {q q' : BlockQuery} {stage : HeldStage} {index : Nat} {sequence : UInt64}

section Moves

theorem perm_of_heldAt (h : s.heldAt index stage = some q) :
    s.held.Perm (⟨q, stage⟩ :: (s.release index).held) := by
  unfold heldAt at h
  split at h
  · rename_i held hheld
    split at h
    · rename_i hstage
      obtain ⟨hlt, hget⟩ := List.getElem?_eq_some_iff.mp hheld
      obtain rfl := Option.some.inj h
      subst hstage
      rw [← hget]
      exact (List.getElem_cons_eraseIdx_perm hlt).symm
    · cases h
  · cases h

private theorem count_cons (q : BlockQuery) (stage : HeldStage) (held : List HeldQuery)
    (sequence : UInt64) : (⟨q, stage⟩ :: held).countP (fun held => held.query.sequence = sequence) =
      held.countP (fun held => held.query.sequence = sequence) +
        if q.sequence = sequence then 1 else 0 := by
  rw [List.countP_cons]
  by_cases h : q.sequence = sequence
  · rw [if_pos (decide_eq_true h), if_pos h]
  · rw [if_neg (by rw [decide_eq_false h]; decide), if_neg h]

theorem live_hold (q : BlockQuery) (stage : HeldStage) (sequence : UInt64) :
    (s.hold q stage).live sequence = s.live sequence + if q.sequence = sequence then 1 else 0 := by
  unfold live hold
  dsimp only
  rw [count_cons]
  omega

theorem live_of_heldAt (h : s.heldAt index stage = some q) (sequence : UInt64) :
    s.live sequence = (s.release index).live sequence + if q.sequence = sequence then 1 else 0 := by
  have hqueries : (s.release index).queries = s.queries := rfl
  unfold live
  rw [(perm_of_heldAt h).countP_eq, count_cons, hqueries]
  omega

theorem mem_of_heldAt (h : s.heldAt index stage = some q) : ⟨q, stage⟩ ∈ s.held :=
  (perm_of_heldAt h).mem_iff.mpr List.mem_cons_self

theorem live_of_stored (h : s.queries.get sequence = some q) (other : UInt64) :
    s.live other = ({ s with queries := s.queries.del sequence } : BlockQueries).live other +
      if other = sequence then 1 else 0 := by
  unfold live Table.contains
  rw [Table.get_del]
  by_cases hother : other = sequence
  · rw [if_pos hother, if_pos hother, hother, h]
    rfl
  · rw [if_neg hother, if_neg hother]
    rfl

theorem live_insert (h : s.queries.contains q.sequence = false) (sequence : UInt64) :
    (s.insert q).live sequence = s.live sequence + if q.sequence = sequence then 1 else 0 := by
  rw [insert, h, if_neg (by decide)]
  unfold live
  dsimp only
  by_cases hsequence : q.sequence = sequence
  · subst hsequence
    rw [if_pos rfl, h, Table.contains, Table.get_put, if_pos rfl]
    rfl
  · rw [if_neg hsequence, Table.contains, Table.get_put, if_neg (Ne.symm hsequence)]
    rfl

theorem Sound.release (h : s.Sound asked) (index : Nat) : (s.release index).Sound asked where
  stored := h.stored
  held held hheld := h.held held (List.mem_of_mem_eraseIdx hheld)

theorem Sound.hold (h : s.Sound asked) (hq : q.Tracks (asked q.sequence))
    (hready : HeldQuery.Ready ⟨q, stage⟩) : (s.hold q stage).Sound asked where
  stored := h.stored
  held held hheld := by
    rcases List.mem_cons.mp hheld with rfl | hheld
    · exact ⟨hq, hready⟩
    · exact h.held held hheld

theorem Sound.del (h : s.Sound asked) (sequence : UInt64) :
    ({ s with queries := s.queries.del sequence } : BlockQueries).Sound asked where
  stored other q hget := by
    rw [Table.get_del] at hget
    split at hget
    · cases hget
    · exact h.stored other q hget
  held := h.held

theorem Sound.put (h : s.Sound asked) (hsequence : q.sequence = sequence)
    (hq : q.Tracks (asked sequence)) (hpending : q.count ≠ 0 → ∃ ack ∈ q.ack, ack.status = .pending) :
    ({ s with queries := s.queries.put sequence q } : BlockQueries).Sound asked where
  stored other q' hget := by
    rw [Table.get_put] at hget
    split at hget
    · obtain rfl := Option.some.inj hget
      rename_i hother
      rw [hother]
      exact ⟨hsequence, hq, hpending⟩
    · exact h.stored other q' hget
  held := h.held

-- What is asked of other queries does not matter.
theorem Sound.congr (h : s.Sound asked)
    (hasked : ∀ sequence, s.live sequence ≠ 0 → asked' sequence = asked sequence) :
    s.Sound asked' where
  stored sequence q hget := by
    obtain ⟨hsequence, hq, hpending⟩ := h.stored sequence q hget
    rw [hasked sequence (by simp [live, Table.contains, hget])]
    exact ⟨hsequence, hq, hpending⟩
  held held hheld := by
    have hpos : s.live held.query.sequence ≠ 0 := by
      have hcount : 0 < s.held.countP fun other => other.query.sequence = held.query.sequence :=
        List.countP_pos_iff.mpr ⟨held, hheld, decide_eq_true rfl⟩
      unfold live
      omega
    rw [hasked _ hpos]
    exact h.held held hheld

end Moves

section Counts

theorem Counted.live_le (h : s.Counted made finished) (sequence : UInt64) : s.live sequence ≤ 1 := by
  rw [h.live]
  split <;> omega

-- A query with a new number.
theorem Counted.make (h : s.Counted made finished) (hnew : s.sequence ∉ made)
    (hq : q.sequence = s.sequence) :
    (({ s with sequence := s.sequence + 1 } : BlockQueries).hold q .inserting).Counted
      (s.sequence :: made) finished where
  live sequence := by
    have hlive : ({ s with sequence := s.sequence + 1 } : BlockQueries).live sequence =
      s.live sequence := rfl
    rw [live_hold, hlive, h.live, hq]
    by_cases hsequence : s.sequence = sequence
    · subst hsequence
      have hunfinished : s.sequence ∉ finished := fun hmem => hnew (h.finished _ hmem)
      rw [if_neg fun hboth => hnew hboth.1, if_pos rfl,
        if_pos ⟨List.mem_cons_self, hunfinished⟩]
    · rw [if_neg hsequence]
      simp only [List.mem_cons, Ne.symm hsequence, false_or]
      rfl
  finished sequence hmem := List.mem_cons_of_mem _ (h.finished sequence hmem)

-- A query that goes from one place to another.
theorem Counted.move {s' : BlockQueries} (h : s.Counted made finished)
    (hlive : ∀ sequence, s'.live sequence = s.live sequence) : s'.Counted made finished where
  live sequence := (hlive sequence).trans (h.live sequence)
  finished := h.finished

-- A query that is there no more.
theorem Counted.finish (h : s.Counted made finished) (hq : s.heldAt index stage = some q) :
    (s.release index).Counted made (q.sequence :: finished) where
  live sequence := by
    have hheld := live_of_heldAt hq sequence
    have hlive := h.live sequence
    by_cases hsequence : q.sequence = sequence
    · subst hsequence
      have hle := h.live_le q.sequence
      rw [if_pos rfl] at hheld
      rw [if_neg fun hboth => hboth.2 List.mem_cons_self]
      omega
    · rw [if_neg hsequence] at hheld
      simp only [List.mem_cons, Ne.symm hsequence, false_or]
      rw [← hlive, hheld]
      rfl
  finished sequence hmem := by
    rcases List.mem_cons.mp hmem with rfl | hmem
    · have hheld := live_of_heldAt hq q.sequence
      have hlive := h.live q.sequence
      rw [if_pos rfl] at hheld
      by_contra hunmade
      rw [if_neg fun hboth => hunmade hboth.1] at hlive
      omega
    · exact h.finished sequence hmem

end Counts

end BlockQueries

namespace BlockQuery

variable {asked : List QueryFrom} {q q' : BlockQuery}

theorem ofTarget_tracks (sequence : UInt64) (now : Nat) (onlyFullNode : Bool)
    (target : QueryTarget) :
    (ofTarget sequence now onlyFullNode target).sequence = sequence ∧
      (ofTarget sequence now onlyFullNode target).Tracks [] ∧
      (ofTarget sequence now onlyFullNode target).Awaits := by
  cases target <;>
  · refine ⟨rfl, ⟨rfl, fun _ => ⟨rfl, ?_⟩, fun hne => absurd rfl hne, nofun⟩, ?_⟩
    · exact fun ack hmem => nomatch hmem
    · exact fun ack hmem => nomatch hmem

theorem ofTargetFrom_tracks (sequence : UInt64) (now : Nat) {from_ : List QueryFrom}
    (h : from_ ≠ []) (target : QueryTarget) :
    (ofTargetFrom sequence now from_ target).sequence = sequence ∧
      (ofTargetFrom sequence now from_ target).Tracks [] ∧
      (ofTargetFrom sequence now from_ target).Awaits := by
  have hawaits : (ofTargetFrom sequence now from_ target).Awaits := by
    intro ack hmem
    rw [List.eq_of_mem_replicate hmem]
    rfl
  have hcount : (ofTargetFrom sequence now from_ target).count = 0 := by cases target <;> rfl
  refine ⟨by cases target <;> rfl, ⟨List.length_replicate, fun _ => ⟨rfl, hawaits⟩, ?_, fun _ => h⟩,
    hawaits⟩
  exact fun hne => absurd hcount hne

theorem pendingNodes_of_awaits (h : q.Tracks asked) (hawaits : q.Awaits) :
    q.pendingNodes = q.from_ := by
  have hall : (q.from_.zip q.ack).filter (fun node => node.2.status = .pending) =
      q.from_.zip q.ack := by
    rw [List.filter_eq_self]
    intro node hnode
    exact decide_eq_true (hawaits _ (List.of_mem_zip hnode).2)
  rw [pendingNodes, hall, List.map_fst_zip h.nodes.ge]

-- A query is sent to all of its nodes, or to one new node, if there is any.
theorem Tracks.send (h : q.Tracks asked) (hawaits : q.Awaits) (hcount : q.count.toNat + 1 < 2 ^ 32)
    (fullNodePeer peer : Option QueryFrom) :
    (q.sendQuery_ fullNodePeer peer).1.sequence = q.sequence ∧
      (q.sendQuery_ fullNodePeer peer).1.Awaits ∧
      (q.sendQuery_ fullNodePeer peer).1.Tracks
        (if (q.sendQuery_ fullNodePeer peer).2 ≠ [] then (q.sendQuery_ fullNodePeer peer).2
          else asked) := by
  have hnext : q.count + 1 ≠ 0 := by
    intro hzero
    have hnat := congrArg UInt32.toNat hzero
    rw [UInt32.toNat_add, Nat.mod_eq_of_lt (by simpa using hcount)] at hnat
    exact absurd hnat (by simp)
  unfold sendQuery_
  by_cases hspecified : q.onlySpecifiedNode = true
  · have hfrom := h.specified hspecified
    simp only [if_pos hspecified, if_neg hfrom]
    refine ⟨trivial, hawaits, ?_⟩
    rw [pendingNodes_of_awaits h hawaits, if_pos hfrom]
    exact ⟨h.nodes, fun hzero => absurd hzero hnext, fun _ => ⟨rfl, hfrom⟩, fun _ => hfrom⟩
  · simp only [if_neg hspecified]
    cases (if q.onlyFullNode = true then fullNodePeer else peer) with
    | none => exact ⟨rfl, hawaits, by simpa using h⟩
    | some node =>
        have hpending : ∀ ack ∈ [QueryAck.pending], ack.status = .pending := by
          intro ack hmem
          rw [List.mem_singleton.mp hmem]
          rfl
        refine ⟨rfl, hpending, ?_⟩
        rw [if_pos (List.cons_ne_nil _ _)]
        exact ⟨rfl, fun hzero => absurd hzero hnext, fun _ => ⟨rfl, List.cons_ne_nil _ _⟩,
          fun _ => List.cons_ne_nil _ _⟩

theorem Tracks.updateWakeup (h : q.Tracks asked) (now size : Nat) :
    (q.updateWakeup now size).Tracks asked := ⟨h.nodes, h.unsent, h.sent, h.specified⟩

-- When it wakes up after it was sent, nothing stays pending.
theorem Tracks.timeOut (h : q.Tracks asked) (hcount : q.count ≠ 0) :
    q.timeOut.Tracks asked ∧ q.timeOut.Answered := by
  refine ⟨⟨?_, fun hzero => absurd hzero hcount, h.sent, h.specified⟩, hcount, ?_⟩
  · exact (List.length_map _).trans h.nodes
  · intro ack hmem
    obtain ⟨before, -, rfl⟩ := List.mem_map.mp hmem
    split
    · exact fun hpending => nomatch hpending
    · assumption

theorem Tracks.acknowledge (h : q.Tracks asked) (hcount : q.count ≠ 0) (from_ : QueryFrom)
    (status : AckStatus) (block : Option Block) :
    (q.acknowledge from_ status block).Tracks asked := by
  refine ⟨?_, fun hzero => absurd hzero hcount, h.sent, h.specified⟩
  unfold BlockQuery.acknowledge
  dsimp only
  rw [List.length_map, List.length_zip, h.nodes, Nat.min_self]

-- An acknowledgement of another node changes nothing.
theorem acknowledge_of_not_mem (hnodes : q.ack.length = q.from_.length) {from_ : QueryFrom}
    (hfrom : from_ ∉ q.from_) (status : AckStatus) (block : Option Block) :
    q.acknowledge from_ status block = q := by
  have hack : (q.from_.zip q.ack).map (fun node => if from_ = node.1 then ⟨status, block⟩ else node.2) =
      q.ack := by
    have hsame : (q.from_.zip q.ack).map (fun node => if from_ = node.1 then ⟨status, block⟩ else node.2) =
        (q.from_.zip q.ack).map Prod.snd := by
      apply List.map_congr_left
      intro node hnode
      rw [if_neg]
      rintro rfl
      exact hfrom (List.of_mem_zip hnode).1
    rw [hsame, List.map_snd_zip hnodes.le]
  unfold acknowledge
  rw [hack, decide_eq_false hfrom, Bool.false_and, Bool.or_false]

-- The query is for specified nodes, and this is none of them.
def Elsewhere (q : BlockQuery) (from_ : QueryFrom) : Prop :=
  q.onlySpecifiedNode = true ∧ from_ ∉ q.from_

instance (q : BlockQuery) (from_ : QueryFrom) : Decidable (q.Elsewhere from_) :=
  inferInstanceAs (Decidable (_ ∧ _))

-- Such a node does not answer for the others, which have not been asked yet.
theorem Tracks.elsewhere (h : q.Tracks asked) (hcount : q.count = 0) {from_ : QueryFrom}
    (hfrom : q.Elsewhere from_) (status : AckStatus) (block : Option Block) :
    q.acknowledge from_ status block = q ∧ ∃ ack ∈ q.ack, ack.status = .pending := by
  refine ⟨acknowledge_of_not_mem h.nodes hfrom.2 status block, ?_⟩
  have hnodes := h.nodes
  have hsome := h.specified hfrom.1
  have hawaits := (h.unsent hcount).2
  cases hack : q.ack with
  | nil =>
      rw [hack] at hnodes
      exact absurd (List.eq_nil_of_length_eq_zero hnodes.symm) hsome
  | cons ack rest =>
      refine ⟨ack, List.mem_cons_self, hawaits ack ?_⟩
      rw [hack]
      exact List.mem_cons_self

-- A query whose callback gives one answer for all goes on with everything pending.
theorem Tracks.continued (h : q.Tracks asked) (hcount : q.count ≠ 0) {forget : Bool}
    {answers : List QueryCallbackStatus} (hsame : ∀ a ∈ answers, ∀ b ∈ answers, a = b)
    (hq' : q.continued forget answers = some q') :
    q'.sequence = q.sequence ∧ q'.Tracks asked ∧ q'.Awaits ∧
      ¬∀ answer ∈ answers, answer = .finish := by
  unfold BlockQuery.continued at hq'
  split at hq'
  · cases hq'
  rename_i hgoing
  obtain rfl := Option.some.inj hq'
  rw [not_or, not_not] at hgoing
  obtain ⟨hlength, hunfinished⟩ := hgoing
  refine ⟨rfl, ⟨?_, fun hzero => absurd hzero hcount, h.sent, h.specified⟩, ?_, hunfinished⟩
  · dsimp only
    rw [List.length_map, List.length_zip, hlength, h.nodes, Nat.min_self]
  · intro ack hmem
    obtain ⟨answer, hanswer, rfl⟩ := List.mem_map.mp hmem
    have hcontinue : answer.1 = .continue_ := by
      cases hstatus : answer.1 with
      | continue_ => rfl
      | finish =>
          refine absurd (fun other hother => ?_) hunfinished
          rw [hsame other hother _ (List.of_mem_zip hanswer).1, hstatus]
    rw [if_pos hcontinue]

theorem finished_of_continued {forget : Bool} {answers : List QueryCallbackStatus}
    (hlength : answers.length = q.ack.length) (h : q.continued forget answers = none) :
    ∀ answer ∈ answers, answer = .finish := by
  unfold continued at h
  split at h
  · rename_i hover
    exact hover.resolve_left fun hne => hne hlength
  · cases h

end BlockQuery

namespace BlockQueries

-- A query gets a number of its own, an acknowledgement that matches a query comes after it was
-- sent, or from elsewhere than the nodes that the query is for, a callback gives one answer for
-- all, and the number of times that a query was sent fits its counter.
def Expected (history : QueryHistory) (s : BlockQueries) : QueryAction → Prop
  | .query .. => s.sequence ∉ queriesMade history
  | .queryFrom .. => s.sequence ∉ queriesMade history
  | .ack sequence by_ account height hash _ _ endpoint proxy => ∀ q ∈ s.queries.get sequence,
    q.Matches by_ account height hash → q.count = 0 → q.Elsewhere ⟨endpoint, proxy⟩
  | .process index answers => ∀ q ∈ s.callbackAt (.process index answers),
    answers.length = q.ack.length ∧ ∀ a ∈ answers, ∀ b ∈ answers, a = b
  | .answer index answers => ∀ q ∈ s.callbackAt (.answer index answers),
    answers.length = q.ack.length ∧ ∀ a ∈ answers, ∀ b ∈ answers, a = b
  | .send index _ _ _ => ∀ q ∈ s.heldAt index .sending, q.count.toNat + 1 < 2 ^ 32
  | .insert _ => True
  | .wake _ _ => True

def ExpectedActions (history : QueryHistory) (_ : BlockQueries) : Prop :=
  match history with
  | [] => True
  | (s, action) :: before => s.Expected before action

instance (history : QueryHistory) (s : BlockQueries) (action : QueryAction) :
    Decidable (s.Expected history action) :=
  match action with
  | .query .. | .queryFrom .. => inferInstanceAs (Decidable (s.sequence ∉ queriesMade history))
  | .ack sequence by_ account height hash _ _ endpoint proxy => inferInstanceAs (Decidable
    (∀ q ∈ s.queries.get sequence, q.Matches by_ account height hash → q.count = 0 →
      q.Elsewhere ⟨endpoint, proxy⟩))
  | .process index answers => inferInstanceAs (Decidable
    (∀ q ∈ s.callbackAt (.process index answers),
      answers.length = q.ack.length ∧ ∀ a ∈ answers, ∀ b ∈ answers, a = b))
  | .answer index answers => inferInstanceAs (Decidable
    (∀ q ∈ s.callbackAt (.answer index answers),
      answers.length = q.ack.length ∧ ∀ a ∈ answers, ∀ b ∈ answers, a = b))
  | .send index _ _ _ => inferInstanceAs (Decidable
    (∀ q ∈ s.heldAt index .sending, q.count.toNat + 1 < 2 ^ 32))
  | .insert _ | .wake _ _ => isTrue trivial

instance (history : QueryHistory) (s : BlockQueries) : Decidable (ExpectedActions history s) :=
  match history with
  | [] => isTrue trivial
  | (s, action) :: before => inferInstanceAs (Decidable (s.Expected before action))

structure Tracked (history : QueryHistory) (s : BlockQueries) : Prop where
  sound : s.Sound fun sequence => askedNodes sequence history
  counted : s.Counted (queriesMade history) (queriesFinished history)
  unmade : ∀ sequence, sequence ∉ queriesMade history → askedNodes sequence history = []

variable {history : QueryHistory} {s : BlockQueries} {q : BlockQuery} {stage : HeldStage}
  {index : Nat}

theorem Tracked.make (h : s.Tracked history) (hnew : s.sequence ∉ queriesMade history)
    (hsequence : q.sequence = s.sequence) (hq : q.Tracks []) (hawaits : q.Awaits) :
    let s' := ({ s with sequence := s.sequence + 1 } : BlockQueries).hold q .inserting
    s'.Sound (fun sequence => askedNodes sequence history) ∧
      s'.Counted (s.sequence :: queriesMade history) (queriesFinished history) := by
  refine ⟨Sound.hold ⟨h.sound.stored, h.sound.held⟩ ?_ hawaits, h.counted.make hnew hsequence⟩
  rw [hsequence, h.unmade _ hnew]
  exact hq

-- A query that a thread has goes on with it.
theorem Tracked.proceed (h : s.Tracked history) (hheld : s.heldAt index stage = some q)
    {q' : BlockQuery} (stage' : HeldStage) (hsequence : q'.sequence = q.sequence)
    {asked : UInt64 → List QueryFrom}
    (hasked : ∀ sequence, sequence ≠ q.sequence → asked sequence = askedNodes sequence history)
    (hq : q'.Tracks (asked q.sequence)) (hready : HeldQuery.Ready ⟨q', stage'⟩) :
    (s.proceed index stage' (some q')).Sound asked ∧
      ∀ sequence, (s.proceed index stage' (some q')).live sequence = s.live sequence := by
  have hlive := live_of_heldAt hheld
  constructor
  · refine Sound.hold ((h.sound.release index).congr fun sequence hpos => hasked sequence ?_) ?_
      hready
    · rintro rfl
      have hle := h.counted.live_le q.sequence
      rw [hlive, if_pos rfl] at hle
      omega
    · rw [hsequence]
      exact hq
  · intro sequence
    rw [hlive, BlockQueries.proceed, live_hold, hsequence]

theorem heldAt_tracks (h : s.Tracked history) (hheld : s.heldAt index stage = some q) :
    q.Tracks (askedNodes q.sequence history) ∧ HeldQuery.Ready ⟨q, stage⟩ :=
  h.sound.held _ (mem_of_heldAt hheld)

theorem Tracked.insert (h : s.Tracked history) (hheld : s.heldAt index .inserting = some q) :
    ((s.release index).insert q).Sound (fun sequence => askedNodes sequence history) ∧
      ∀ sequence, ((s.release index).insert q).live sequence = s.live sequence := by
  obtain ⟨hq, hawaits⟩ := heldAt_tracks h hheld
  have hlive := live_of_heldAt hheld
  have hle := h.counted.live_le q.sequence
  have habsent : (s.release index).queries.contains q.sequence = false := by
    rw [hlive, if_pos rfl, BlockQueries.live] at hle
    by_contra hpresent
    rw [Bool.not_eq_false] at hpresent
    rw [if_pos hpresent] at hle
    omega
  constructor
  · rw [BlockQueries.insert, habsent, if_neg (by decide)]
    refine (h.sound.release index).put rfl hq fun hcount => ?_
    have hnodes := (hq.sent hcount).2
    cases hack : q.ack with
    | nil =>
        have hlength := hq.nodes
        rw [hack] at hlength
        exact absurd (List.eq_nil_of_length_eq_zero hlength.symm) hnodes
    | cons ack rest =>
        refine ⟨ack, List.mem_cons_self, hawaits ack ?_⟩
        rw [hack]
        exact List.mem_cons_self
  · intro sequence
    rw [live_insert habsent, hlive]

theorem Tracked.wake (h : s.Tracked history) {sequence : UInt64}
    (hstored : s.queries.get sequence = some q) :
    (({ s with queries := s.queries.del sequence } : BlockQueries).hold q .waking).Sound
        (fun sequence => askedNodes sequence history) ∧
      ∀ other, (({ s with queries := s.queries.del sequence } : BlockQueries).hold q
        .waking).live other = s.live other := by
  obtain ⟨rfl, hq, -⟩ := h.sound.stored sequence q hstored
  refine ⟨(h.sound.del q.sequence).hold hq trivial, fun other => ?_⟩
  rw [live_hold, live_of_stored hstored]
  by_cases hother : q.sequence = other
  · rw [if_pos hother, if_pos hother.symm]
  · rw [if_neg hother, if_neg (Ne.symm hother)]

-- An acknowledgement stays with its query, and sets it free when it was the last one.
theorem Tracked.ack (h : s.Tracked history) {sequence : UInt64} {by_ : QueryBy} {account : Account}
    {height : UInt64} {hash : BlockHash} {from_ : QueryFrom}
    (hearly : ∀ q ∈ s.queries.get sequence, q.Matches by_ account height hash → q.count = 0 →
      q.Elsewhere from_) (status : AckStatus) (block : Option Block) :
    (s.processQueryAck sequence by_ account height hash status block from_).Sound
        (fun sequence => askedNodes sequence history) ∧
      ∀ other, (s.processQueryAck sequence by_ account height hash status block from_).live other =
        s.live other := by
  unfold processQueryAck
  cases hstored : s.queries.get sequence with
  | none => exact ⟨h.sound, fun _ => rfl⟩
  | some q =>
      dsimp only
      by_cases hmatches : q.Matches by_ account height hash
      · obtain ⟨hsequence, hq, -⟩ := h.sound.stored sequence q hstored
        rw [if_pos hmatches]
        by_cases hcount : q.count = 0
        · obtain ⟨hsame, hpending⟩ := hq.elsewhere hcount (hearly q hstored hmatches hcount) status
            block
          rw [hsame, if_pos hpending, Table.put_of_get hstored]
          exact ⟨h.sound, fun _ => rfl⟩
        have hq' := hq.acknowledge hcount from_ status block
        have hsequence' : (q.acknowledge from_ status block).sequence = sequence := hsequence
        by_cases hpending : ∃ ack ∈ (q.acknowledge from_ status block).ack, ack.status = .pending
        · rw [if_pos hpending]
          refine ⟨h.sound.put hsequence' hq' fun _ => hpending, fun other => ?_⟩
          unfold live Table.contains
          rw [Table.get_put]
          by_cases hother : other = sequence
          · rw [if_pos hother, hother, hstored]
            rfl
          · rw [if_neg hother]
        · rw [if_neg hpending]
          have hanswered : (q.acknowledge from_ status block).Answered :=
            ⟨hcount, fun ack hmem hstatus => hpending ⟨ack, hmem, hstatus⟩⟩
          refine ⟨(h.sound.del sequence).hold (by rwa [hsequence']) hanswered, fun other => ?_⟩
          rw [live_hold, live_of_stored hstored, hsequence']
          by_cases hother : sequence = other
          · rw [if_pos hother, if_pos hother.symm]
          · rw [if_neg hother, if_neg (Ne.symm hother)]
      · rw [if_neg hmatches]
        exact ⟨h.sound, fun _ => rfl⟩

-- A callback that has answered: the query is sent again, or it is finished.
theorem Tracked.callback (h : s.Tracked history) {action : QueryAction}
    (hheld : s.heldAt index stage = some q) (q' : BlockQuery) (forget : Bool)
    {answers : List QueryCallbackStatus} (hsequence : q'.sequence = q.sequence)
    (hq : q'.Tracks (askedNodes q.sequence history)) (hcount : q'.count ≠ 0)
    (hcallback : s.callbackAt action = some q') (hanswers : action.answers = answers)
    (hexpected : answers.length = q'.ack.length ∧ ∀ a ∈ answers, ∀ b ∈ answers, a = b)
    (hasked : ∀ sequence, askedNodes sequence ((s, action) :: history) =
      askedNodes sequence history)
    (hmade : queriesMade ((s, action) :: history) = queriesMade history)
    (htake : s.take action = s.proceed index .sending (q'.continued forget answers)) :
    (s.take action).Tracked ((s, action) :: history) := by
  obtain ⟨hlength, hsame⟩ := hexpected
  have hfinished : queriesFinished ((s, action) :: history) =
      if ∀ answer ∈ answers, answer = .finish then q.sequence :: queriesFinished history
      else queriesFinished history := by
    rw [queriesFinished, hcallback]
    dsimp only
    rw [hanswers, hsequence]
  have hunmade := h.unmade
  rw [htake]
  cases hnext : q'.continued forget answers with
  | none =>
      have hall := BlockQuery.finished_of_continued hlength hnext
      refine ⟨?_, ?_, ?_⟩
      · simp only [hasked]
        exact h.sound.release index
      · rw [hmade, hfinished, if_pos hall]
        exact h.counted.finish hheld
      · simp only [hasked, hmade]
        exact hunmade
  | some next =>
      obtain ⟨hsequence', hnext', hawaits, hunfinished⟩ := hq.continued hcount hsame hnext
      obtain ⟨hsound, hlive⟩ := h.proceed hheld .sending (hsequence'.trans hsequence)
        (fun _ _ => rfl) hnext' hawaits
      refine ⟨?_, ?_, ?_⟩
      · simp only [hasked]
        exact hsound
      · rw [hmade, hfinished, if_neg hunfinished]
        exact h.counted.move hlive
      · simp only [hasked, hmade]
        exact hunmade

-- A query that a thread goes on with, while no callback runs.
theorem Tracked.goOn (h : s.Tracked history) {action : QueryAction}
    (hheld : s.heldAt index stage = some q) (q' : BlockQuery) (stage' : HeldStage)
    (hsequence : q'.sequence = q.sequence)
    (hasked : ∀ sequence, sequence ≠ q.sequence →
      askedNodes sequence ((s, action) :: history) = askedNodes sequence history)
    (hq : q'.Tracks (askedNodes q.sequence ((s, action) :: history)))
    (hready : HeldQuery.Ready ⟨q', stage'⟩) (hcallback : s.callbackAt action = none)
    (hmade : queriesMade ((s, action) :: history) = queriesMade history)
    (htake : s.take action = s.proceed index stage' (some q')) :
    (s.take action).Tracked ((s, action) :: history) := by
  have hfinished : queriesFinished ((s, action) :: history) = queriesFinished history := by
    rw [queriesFinished, hcallback]
  obtain ⟨hsound, hlive⟩ := h.proceed hheld stage' hsequence hasked hq hready
  rw [htake]
  refine ⟨hsound, ?_, ?_⟩
  · rw [hmade, hfinished]
    exact h.counted.move hlive
  · rw [hmade]
    intro sequence hmem
    rw [hasked, h.unmade sequence hmem]
    rintro rfl
    have hlive := live_of_heldAt hheld q.sequence
    rw [h.counted.live, if_neg fun hboth => hmem hboth.1, if_pos rfl] at hlive
    omega

theorem Tracked.query (h : s.Tracked history) {now : Nat} {target : QueryTarget}
    {onlyFullNode : Bool} (hnew : s.sequence ∉ queriesMade history) :
    (s.take (.query now target onlyFullNode)).Tracked
      ((s, .query now target onlyFullNode) :: history) := by
  obtain ⟨hsequence, hq, hawaits⟩ := BlockQuery.ofTarget_tracks s.sequence now onlyFullNode target
  obtain ⟨hsound, hcounted⟩ := h.make hnew hsequence hq hawaits
  exact ⟨hsound, hcounted, fun sequence hmem =>
    h.unmade sequence fun hmade => hmem (List.mem_cons_of_mem _ hmade)⟩

theorem Tracked.queryFrom (h : s.Tracked history) {now : Nat} {target : QueryTarget}
    {from_ : List QueryFrom} (hnew : s.sequence ∉ queriesMade history) :
    (s.take (.queryFrom now target from_)).Tracked
      ((s, .queryFrom now target from_) :: history) := by
  by_cases hfrom : from_ = []
  · have hmade : queriesMade ((s, .queryFrom now target from_) :: history) =
        queriesMade history := if_pos hfrom
    have htake : s.take (.queryFrom now target from_) = s := if_pos hfrom
    rw [htake]
    refine ⟨h.sound, ?_, ?_⟩
    · rw [hmade]
      exact h.counted
    · rw [hmade]
      exact h.unmade
  · obtain ⟨hsequence, hq, hawaits⟩ :=
      BlockQuery.ofTargetFrom_tracks s.sequence now hfrom target
    obtain ⟨hsound, hcounted⟩ := h.make hnew hsequence hq hawaits
    have hmade : queriesMade ((s, .queryFrom now target from_) :: history) =
        s.sequence :: queriesMade history := if_neg hfrom
    have htake : s.take (.queryFrom now target from_) = _ := if_neg hfrom
    rw [htake]
    refine ⟨hsound, ?_, ?_⟩
    · rw [hmade]
      exact hcounted
    · rw [hmade]
      exact fun sequence hmem =>
        h.unmade sequence fun hmade => hmem (List.mem_cons_of_mem _ hmade)

theorem Tracked.process (h : s.Tracked history) {answers : List QueryCallbackStatus}
    (hheld : s.heldAt index .waking = some q)
    (hexpected : s.Expected history (.process index answers)) :
    (s.take (.process index answers)).Tracked ((s, .process index answers) :: history) := by
  obtain ⟨hq, -⟩ := heldAt_tracks h hheld
  have htake : s.take (.process index answers) = s.processQuery index answers q := by
    rw [take, hheld]
  by_cases hcount : q.count = 0
  · have hcallback : s.callbackAt (.process index answers) = none := by
      rw [callbackAt, hheld, Option.bind_some, if_pos hcount]
    refine h.goOn hheld q .sending rfl (fun _ _ => rfl) hq (hq.unsent hcount).2 hcallback
      rfl ?_
    rw [htake, processQuery, if_pos hcount]
  · have hcallback : s.callbackAt (.process index answers) = some q.timeOut := by
      rw [callbackAt, hheld, Option.bind_some, if_neg hcount]
    refine h.callback hheld q.timeOut false rfl (hq.timeOut hcount).1 hcount hcallback rfl
      (hexpected _ hcallback) (fun _ => rfl) rfl ?_
    rw [htake, processQuery, if_neg hcount]
    rfl

theorem Tracked.send (h : s.Tracked history) {fullNodePeer peer : Option QueryFrom} {now : Nat}
    (hheld : s.heldAt index .sending = some q) (hcount : q.count.toNat + 1 < 2 ^ 32) :
    (s.take (.send index fullNodePeer peer now)).Tracked
      ((s, .send index fullNodePeer peer now) :: history) := by
  obtain ⟨hq, hawaits⟩ := heldAt_tracks h hheld
  obtain ⟨hsequence, hawaits', hq'⟩ := hq.send hawaits hcount fullNodePeer peer
  have hasked (sequence : UInt64) :
      askedNodes sequence ((s, .send index fullNodePeer peer now) :: history) =
        if q.sequence = sequence ∧ (q.sendQuery_ fullNodePeer peer).2 ≠ [] then
          (q.sendQuery_ fullNodePeer peer).2
        else askedNodes sequence history := by
    rw [askedNodes, hheld]
  refine h.goOn hheld ((q.sendQuery_ fullNodePeer peer).1.updateWakeup now s.queries.keys.card)
    .inserting hsequence ?_ ?_ hawaits' rfl rfl ?_
  · intro sequence hother
    rw [hasked, if_neg fun hboth => hother hboth.1.symm]
  · rw [hasked]
    simp only [true_and]
    exact hq'.updateWakeup _ _
  · rw [take, hheld]

theorem Tracked.step (h : s.Tracked history) {action : QueryAction} (hfits : s.Fits action)
    (hexpected : s.Expected history action) :
    (s.take action).Tracked ((s, action) :: history) := by
  cases action with
  | query now target onlyFullNode => exact h.query hexpected
  | queryFrom now target from_ => exact h.queryFrom hexpected
  | insert index =>
      obtain ⟨q, hheld⟩ := Option.isSome_iff_exists.mp hfits
      have htake : s.take (.insert index) = (s.release index).insert q := by rw [take, hheld]
      obtain ⟨hsound, hlive⟩ := h.insert hheld
      rw [htake]
      exact ⟨hsound, h.counted.move hlive, h.unmade⟩
  | wake now sequence =>
      obtain ⟨q, hstored, -⟩ := hfits
      have htake : s.take (.wake now sequence) =
          ({ s with queries := s.queries.del sequence } : BlockQueries).hold q .waking := by
        rw [take, Option.mem_def.mp hstored]
      obtain ⟨hsound, hlive⟩ := h.wake hstored
      rw [htake]
      exact ⟨hsound, h.counted.move hlive, h.unmade⟩
  | process index answers =>
      obtain ⟨q, hheld⟩ := Option.isSome_iff_exists.mp hfits
      exact h.process hheld hexpected
  | ack sequence by_ account height hash status block endpoint proxy =>
      obtain ⟨hsound, hlive⟩ := h.ack hexpected status block
      exact ⟨hsound, h.counted.move hlive, h.unmade⟩
  | answer index answers =>
      obtain ⟨q, hheld⟩ := Option.isSome_iff_exists.mp hfits
      obtain ⟨hq, hanswered⟩ := heldAt_tracks h hheld
      exact h.callback hheld q true rfl hq hanswered.1 hheld rfl (hexpected q hheld)
        (fun _ => rfl) rfl (by rw [take, hheld]; rfl)
  | send index fullNodePeer peer now =>
      obtain ⟨q, hheld⟩ := Option.isSome_iff_exists.mp hfits
      exact h.send hheld (hexpected q hheld)

theorem Tracked.of_run (h : queryMachine.Run ExpectedActions history s) : s.Tracked history := by
  apply h.invariant (P := fun history s => s.Tracked history)
  · rintro s rfl
    refine ⟨⟨?_, ?_⟩, ⟨fun _ => rfl, ?_⟩, fun _ _ => rfl⟩
    · intro sequence q hget
      cases hget
    · exact fun held hmem => nomatch hmem
    · exact fun sequence hmem => nomatch hmem
  · exact fun history s action _ hfits hexpected ih => ih.step hfits hexpected

-- A callback runs for the nodes that were asked, each with its acknowledgement.
theorem Tracked.callback_asked (h : s.Tracked history) {action : QueryAction}
    (hcallback : s.callbackAt action = some q) : q.from_ = askedNodes q.sequence history ∧
      q.ack.length = q.from_.length ∧ q.from_ ≠ [] ∧ ∀ ack ∈ q.ack, ack.status ≠ .pending := by
  have hanswered (q : BlockQuery) (hq : q.Tracks (askedNodes q.sequence history))
      (hanswered : q.Answered) : q.from_ = askedNodes q.sequence history ∧
        q.ack.length = q.from_.length ∧ q.from_ ≠ [] ∧ ∀ ack ∈ q.ack, ack.status ≠ .pending :=
    ⟨(hq.sent hanswered.1).1.symm, hq.nodes, (hq.sent hanswered.1).2, hanswered.2⟩
  cases action with
  | process index answers =>
      obtain ⟨before, hheld, hbefore⟩ := Option.bind_eq_some_iff.mp hcallback
      obtain ⟨hq, -⟩ := heldAt_tracks h hheld
      split at hbefore
      · cases hbefore
      · obtain rfl := Option.some.inj hbefore
        obtain ⟨htracks, hdone⟩ := hq.timeOut ‹_›
        exact hanswered _ htracks hdone
  | answer index answers =>
      obtain ⟨hq, hready⟩ := heldAt_tracks h hcallback
      exact hanswered q hq hready
  | query | queryFrom | insert | wake | ack | send => cases hcallback

-- An acknowledgement from elsewhere changes nothing.
theorem Tracked.unasked (h : s.Tracked history) {sequence : UInt64} {by_ : QueryBy}
    {account : Account} {height : UInt64} {hash : BlockHash} {status : AckStatus}
    {block : Option Block} {endpoint : Endpoint} {proxy : Option Endpoint}
    (hexpected : s.Expected history (.ack sequence by_ account height hash status block endpoint
      proxy))
    (hasked : ⟨endpoint, proxy⟩ ∉ askedNodes sequence history) :
    s.take (.ack sequence by_ account height hash status block endpoint proxy) = s := by
  change s.processQueryAck sequence by_ account height hash status block ⟨endpoint, proxy⟩ = s
  unfold processQueryAck
  cases hstored : s.queries.get sequence with
  | none => rfl
  | some q =>
      dsimp only
      by_cases hmatches : q.Matches by_ account height hash
      · obtain ⟨hsequence, hq, hpending⟩ := h.sound.stored sequence q hstored
        rw [if_pos hmatches]
        by_cases hcount : q.count = 0
        · obtain ⟨hsame, hnone⟩ := hq.elsewhere hcount (hexpected q hstored hmatches hcount) status
            block
          rw [hsame, if_pos hnone, Table.put_of_get hstored]
        have hsame : q.acknowledge ⟨endpoint, proxy⟩ status block = q := by
          refine BlockQuery.acknowledge_of_not_mem hq.nodes ?_ status block
          rw [← (hq.sent hcount).1]
          exact hasked
        rw [hsame, if_pos (hpending hcount), Table.put_of_get hstored]
      · rw [if_neg hmatches]

end BlockQueries

-- In every run of expected actions: what was not asked for changes nothing, a callback gets the
-- acknowledgements of the nodes that were asked, and a query is there until it is finished.
theorem asked_nodes_answer {history : QueryHistory} {s : BlockQueries}
    (h : queryMachine.Run BlockQueries.ExpectedActions history s) :
    (∀ sequence by_ account height hash status block endpoint proxy,
      s.Expected history (.ack sequence by_ account height hash status block endpoint proxy) →
      ⟨endpoint, proxy⟩ ∉ askedNodes sequence history →
      s.take (.ack sequence by_ account height hash status block endpoint proxy) = s) ∧
    (∀ action q, s.callbackAt action = some q → q.from_ = askedNodes q.sequence history ∧
      q.ack.length = q.from_.length ∧ q.from_ ≠ [] ∧ ∀ ack ∈ q.ack, ack.status ≠ .pending) ∧
    ∀ sequence, s.live sequence =
      if sequence ∈ queriesMade history ∧ sequence ∉ queriesFinished history then 1 else 0 := by
  have htracked := BlockQueries.Tracked.of_run h
  refine ⟨?_, ?_, htracked.counted.live⟩
  · intro sequence by_ account height hash status block endpoint proxy hexpected hasked
    exact htracked.unasked hexpected hasked
  · intro action q hcallback
    exact htracked.callback_asked hcallback

section Samples

private def sampleNode : QueryFrom := ⟨⟨1, 1⟩, none⟩

private def sampleAck (node : QueryFrom) : QueryAction :=
  .ack 0 .height 5 0 0 (.reply .fork) none node.endpoint node.proxyEndpoint

private def newQuery : List QueryAction := [.query 0 (.byHeight 5 0) false, .insert 0]

private def sentQuery : List QueryAction :=
  newQuery ++ [.wake 0 0, .process 0 [], .send 0 none (some sampleNode) 0, .insert 0,
    sampleAck sampleNode]

private theorem sentQuery_run : queryMachine.Run BlockQueries.ExpectedActions
    (queryMachine.exec .empty sentQuery).1 (queryMachine.exec .empty sentQuery).2 :=
  Machine.exec_run_of_fits rfl (by decide) (by decide)

-- The callback of the query has the acknowledgement of the node that was asked.
theorem asked_nodes_answer_sample : ∃ q, (queryMachine.exec .empty sentQuery).2.callbackAt
    (.answer 0 [.finish]) = some q ∧ q.from_ = [sampleNode] ∧ q.ack.length = q.from_.length := by
  have hsome : ((queryMachine.exec .empty sentQuery).2.callbackAt (.answer 0 [.finish])).isSome := by
    decide
  obtain ⟨q, hq⟩ := Option.isSome_iff_exists.mp hsome
  obtain ⟨hfrom, hlength, -⟩ := (asked_nodes_answer sentQuery_run).2.1 _ q hq
  refine ⟨q, hq, ?_, hlength⟩
  have hsequence : ∀ q ∈ (queryMachine.exec .empty sentQuery).2.callbackAt (.answer 0 [.finish]),
      q.sequence = 0 := by
    decide
  rw [hfrom, hsequence q hq]
  decide

-- A query that was sent to no one is taken away by anyone who answers it: its callback gets no
-- acknowledgement, and the query is lost.
theorem unsent_query_answered : ∃ (history : QueryHistory) (s : BlockQueries),
    queryMachine.Run (fun _ _ => True) history s ∧ sampleNode ∉ askedNodes 0 history ∧
      s.queries.contains 0 = true ∧ (s.take (sampleAck sampleNode)).queries.contains 0 = false ∧
      (∃ q, (s.take (sampleAck sampleNode)).callbackAt (.answer 0 []) = some q ∧ q.ack = []) ∧
      ((s.take (sampleAck sampleNode)).take (.answer 0 [])).live 0 = 0 := by
  have hrun : queryMachine.Run (fun _ _ => True) (queryMachine.exec .empty newQuery).1
      (queryMachine.exec .empty newQuery).2 :=
    Machine.exec_run_of_fits rfl (by decide) fun _ _ => trivial
  refine ⟨_, _, hrun, ?_, ?_, ?_, ?_, ?_⟩
  · decide
  · decide
  · decide
  · have hack : ∀ q ∈ ((queryMachine.exec .empty newQuery).2.take
        (sampleAck sampleNode)).callbackAt (.answer 0 []), q.ack = [] := by
      decide
    have hsome : (((queryMachine.exec .empty newQuery).2.take
        (sampleAck sampleNode)).callbackAt (.answer 0 [])).isSome := by
      decide
    obtain ⟨q, hq⟩ := Option.isSome_iff_exists.mp hsome
    exact ⟨q, hq, hack q hq⟩
  · decide

end Samples

end Raicoin
