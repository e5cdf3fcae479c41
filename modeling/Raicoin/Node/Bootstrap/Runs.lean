import Raicoin.Lib.Machine
import Raicoin.Node.Bootstrap.ReadSpec

-- A bootstrap session of the client as a state machine.
namespace Raicoin

open Lib

-- The place of an entry: an account, or an account and a height.
abbrev EntryPosition := Account × Nat

def EntryPosition.Before (p q : EntryPosition) : Prop := p.1 < q.1 ∨ p.1 = q.1 ∧ p.2 < q.2

instance (p q : EntryPosition) : Decidable (p.Before q) :=
  inferInstanceAs (Decidable (p.1 < q.1 ∨ p.1 = q.1 ∧ p.2 < q.2))

namespace BootstrapClient

variable (c : BootstrapClient)

def cursor : EntryPosition := (c.next, c.nextHeight.toNat)

-- The place of an entry of the batch.
def positionAt (index : Nat) : EntryPosition :=
  match c.type with
  | .full | .light => ((c.accounts index).account, 0)
  | .fork =>
    match (c.forks index).first with
    | some block => (block.account, block.height)
    | none => (0, 0)

end BootstrapClient

-- The account at the front of a stream, if it does not end the batch.
def accountFront (stream : List UInt8) : Option BootstrapAccount :=
  match (asyncRead BootstrapAccount.size stream).1 with
  | none => none
  | some bytes =>
    match BootstrapAccount.deserialize bytes with
    | .error _ _ => none
    | .ok account _ => if account.height = invalidHeight then none else some account

def forkPair (env : Env) : Option (List UInt8) → Option (Block × Block)
  | none => none
  | some bytes =>
    match deserializeBlock env bytes with
    | .error _ _ => none
    | .ok first rest =>
      match deserializeBlock env rest with
      | .error _ _ => none
      | .ok second _ => if first.forkWith second then some (first, second) else none

-- The fork at its front.
def forkFront (env : Env) (stream : List UInt8) : Option (Block × Block) :=
  match (asyncRead (Wire.size UInt16) stream).1 with
  | none => none
  | some bytes =>
    match (streamRead : StreamM UInt16) bytes with
    | .error _ _ => none
    | .ok length _ =>
      if length = 0 ∨ length.toNat > BUFFER_SIZE_ then none
      else forkPair env (asyncRead length.toNat (asyncRead (Wire.size UInt16) stream).2).1

-- The place of the entry that is read next, if it can be read and the batch has room for it.
def BootstrapSession.front (env : Env) (s : BootstrapSession) : Option EntryPosition :=
  if s.client.currSize ≥ (BootstrapClient.maxSize_ s.client.type).toNat then none
  else
    match s.client.type with
    | .full | .light => (accountFront s.stream).map fun account => (account.account, 0)
    | .fork => (forkFront env s.stream).map fun fork => (fork.1.account, fork.1.height)

-- `Run` in its parts, and `Pause`.
inductive BootstrapAction where
  | begin_
  | round
  | end_
  | pause
  deriving DecidableEq

-- `outside` is the index of an access that was outside of its array.
structure BootstrapState where
  session : BootstrapSession
  reading : Bool
  outside : Option Nat

def BootstrapState.take (env : Env) (s : BootstrapState) : BootstrapAction → BootstrapState
  | .begin_ => { s with session := s.session.begin_, reading := true }
  | .round =>
    match s.session.round env with
    | .ok session => { s with session }
    | .error index => { s with outside := some index }
  | .end_ => { s with session := s.session.end_, reading := false }
  | .pause => { s with session := { s.session with client := s.session.client.pause } }

def BootstrapState.Fits (s : BootstrapState) : BootstrapAction → Prop
  | .begin_ | .pause => s.reading = false
  | .round => s.reading = true ∧ s.session.returns = false
  | .end_ => s.reading = true ∧ s.session.returns = true

instance (s : BootstrapState) (action : BootstrapAction) : Decidable (s.Fits action) :=
  match action with
  | .begin_ | .pause => inferInstanceAs (Decidable (s.reading = false))
  | .round => inferInstanceAs (Decidable (s.reading = true ∧ s.session.returns = false))
  | .end_ => inferInstanceAs (Decidable (s.reading = true ∧ s.session.returns = true))

-- Whatever the server sends in a session is in the stream from the beginning.
@[reducible] def bootstrapMachine (env : Env) : Machine BootstrapState BootstrapAction where
  start s := (∃ type, s.session.client = .create type) ∧ s.reading = false ∧ s.outside = none
  fits s action := s.Fits action
  step s action := s.take env action

abbrev BootstrapHistory := History BootstrapState BootstrapAction

-- The places of the entries that the client has accepted, the latest first.
def acceptedPositions (env : Env) : BootstrapHistory → List EntryPosition
  | [] => []
  | (s, .round) :: before =>
    let client := (s.take env .round).session.client
    if client.currSize = s.session.client.currSize + 1 then
      client.positionAt s.session.client.currSize :: acceptedPositions env before
    else acceptedPositions env before
  | _ :: before => acceptedPositions env before

-- What comes when the cursor has wrapped around is another fork of the batch, of the first account,
-- so that the height of the last fork refuses it. And the first fork of a batch, if it is of the
-- cursor's account, is not below the cursor.
def BootstrapSession.Orderly (env : Env) (positions : List EntryPosition) (s : BootstrapSession) :
    Prop :=
  ∀ p, s.front env = some p →
    (positions ≠ [] → s.client.cursor = (0, 0) →
      s.client.type = .fork ∧ 0 < s.client.currSize ∧ p.1 = s.client.next) ∧
    (s.client.type = .fork → s.client.currSize = 0 → p.1 = s.client.next →
      s.client.nextHeight.toNat ≤ p.2)

instance (env : Env) (positions : List EntryPosition) (s : BootstrapSession) :
    Decidable (s.Orderly env positions) :=
  decidable_of_iff (∀ p ∈ s.front env,
    (positions ≠ [] → s.client.cursor = (0, 0) →
      s.client.type = .fork ∧ 0 < s.client.currSize ∧ p.1 = s.client.next) ∧
    (s.client.type = .fork → s.client.currSize = 0 → p.1 = s.client.next →
      s.client.nextHeight.toNat ≤ p.2)) Iff.rfl

def OrderlyRounds (env : Env) (history : BootstrapHistory) (_ : BootstrapState) : Prop :=
  match history with
  | (s, .round) :: before => s.session.Orderly env (acceptedPositions env before)
  | _ => True

instance (env : Env) (history : BootstrapHistory) (s : BootstrapState) :
    Decidable (OrderlyRounds env history s) :=
  match history with
  | (s, .round) :: before =>
    inferInstanceAs (Decidable (s.session.Orderly env (acceptedPositions env before)))
  | [] | (_, .begin_) :: _ | (_, .end_) :: _ | (_, .pause) :: _ => isTrue trivial

namespace BootstrapSession

variable {s : BootstrapSession}

-- What a round can come to.
inductive Taken (env : Env) (s : BootstrapSession) : BootstrapSession → Prop where
  | quiet {s' : BootstrapSession} (h : s.client.Untouched s'.client) : Taken env s s'
  | account {s' : BootstrapSession} {account : BootstrapAccount} (htype : s.client.type ≠ .fork)
      (hfront : s.front env = some (account.account, 0)) (hnext : ¬account.account < s.client.next)
      (hsize : s.client.currSize < (BootstrapClient.maxSize_ s.client.type).toNat)
      (hclient : s'.client = { s.client with
        errorCode := none
        accounts := Function.update s.client.accounts s.client.currSize account
        currSize := s.client.currSize + 1
        next := account.account + 1 }) : Taken env s s'
  | fork {s' : BootstrapSession} {c : BootstrapClient} {first second : Block}
      (htype : s.client.type = .fork) (hfront : s.front env = some (first.account, first.height))
      (hsame : s.client.Untouched c) (hnext : ¬first.account < c.next) (hlast : c.LastBelow first)
      (hsize : c.currSize < MAX_FORKS) (hclient : s'.client = c.withFork first second) :
      Taken env s s'

private theorem asyncRead_cases (count : Nat) (stream : List UInt8) :
    (count ≤ stream.length ∧ asyncRead count stream = (some (stream.take count), stream.drop count)) ∨
      asyncRead count stream = (none, []) := by
  unfold asyncRead
  split
  · exact .inl ⟨‹_›, rfl⟩
  · exact .inr rfl

theorem deserialize_account_inverts :
    Inverts BootstrapAccount.deserialize BootstrapAccount.serialize fun _ => True := by
  refine .congr (?_ : Inverts _ (fun a : BootstrapAccount =>
    streamWrite a.account ++ (streamWrite a.head ++ (streamWrite a.height ++ []))) _)
    (fun a _ => by rw [BootstrapAccount.serialize, List.append_nil, List.append_assoc])
    fun _ => Iff.rfl
  refine .bind BootstrapAccount.account streamRead_inverts (fun _ _ => trivial) fun account _ => ?_
  refine .bind BootstrapAccount.head streamRead_inverts (fun _ _ => trivial) fun head _ => ?_
  refine .bind BootstrapAccount.height streamRead_inverts (fun _ _ => trivial) fun height _ => ?_
  exact .done ⟨⟨⟨trivial, rfl⟩, rfl⟩, rfl⟩ fun a ⟨⟨⟨_, haccount⟩, hhead⟩, hheight⟩ => by
    rw [← haccount, ← hhead, ← hheight]

private theorem round_account (env : Env) (htype : s.client.type ≠ .fork) :
    ∃ s', s.round env = .ok s' ∧ Taken env s s' := by
  have hround : s.round env = (do
      let client ← s.client.readAccount (asyncRead BootstrapAccount.size s.stream).1
      return ⟨client, (asyncRead BootstrapAccount.size s.stream).2⟩) := by
    unfold round
    split
    · rfl
    · rfl
    · exact absurd ‹_› htype
  rw [hround]
  rcases asyncRead_cases BootstrapAccount.size s.stream with ⟨hle, hread⟩ | hread
  · rw [hread]
    obtain ⟨c, hc, hcases⟩ := s.client.readAccount_cases htype (s.stream.take BootstrapAccount.size)
    dsimp only
    rw [hc]
    refine ⟨_, rfl, ?_⟩
    cases hcases with
    | failed code => exact .quiet (BootstrapClient.fail_untouched _ _)
    | ended => exact .quiet ⟨rfl, rfl, rfl, rfl, rfl, rfl, fun _ => rfl⟩
    | @accepted account rest haccount hheight hnext hsize =>
        refine .account htype ?_ hnext hsize rfl
        have hfront : accountFront s.stream = some account := by
          unfold accountFront
          rw [hread]
          dsimp only
          rw [haccount]
          exact if_neg hheight
        unfold front
        rw [if_neg (by omega)]
        split
        · rw [hfront]
          rfl
        · rw [hfront]
          rfl
        · exact absurd ‹_› htype
  · rw [hread]
    exact ⟨_, rfl, .quiet (BootstrapClient.fail_untouched _ _)⟩

private theorem round_fork (env : Env) (htype : s.client.type = .fork) :
    ∃ s', s.round env = .ok s' ∧ Taken env s s' := by
  unfold round
  rw [htype]
  dsimp only
  rcases asyncRead_cases (Wire.size UInt16) s.stream with ⟨hle, hread⟩ | hread
  · rw [hread]
    dsimp only
    obtain ⟨c, hc, hcases⟩ :=
      s.client.readForkLength_cases htype (s.stream.take (Wire.size UInt16))
    rw [hc]
    have huntouched : s.client.Untouched c := by
      cases hcases with
      | failed code => exact BootstrapClient.fail_untouched _ _
      | ended => exact ⟨rfl, rfl, rfl, rfl, rfl, rfl, fun _ => rfl⟩
      | @announced length rest _ _ _ _ => exact BootstrapClient.withLength_untouched _ _
    rw [Access.ok_bind]
    by_cases hreturns : c.errorCode.isSome = true ∨ c.finished = true ∨ c.continue_ = false
    · rw [if_pos hreturns]
      exact ⟨_, rfl, .quiet huntouched⟩
    rw [if_neg hreturns]
    cases hcases with
    | failed code => exact absurd (.inl rfl) hreturns
    | ended => exact absurd (.inr (.inr rfl)) hreturns
    | @announced length rest hlength hpos hbuffer hsize =>
        have hbelow : (s.client.withLength length).currSize < MAX_FORKS := hsize
        rw [loadAt_bind hbelow]
        simp only [BootstrapClient.withLength_length, if_neg hpos]
        rcases asyncRead_cases length.toNat (s.stream.drop (Wire.size UInt16)) with
          ⟨hrest, hblocks⟩ | hblocks
        · rw [hblocks]
          obtain ⟨c', hc', hcases⟩ := (s.client.withLength length).readForkBlocks_cases env hbelow
            ((s.stream.drop (Wire.size UInt16)).take length.toNat)
          dsimp only
          rw [hc']
          refine ⟨_, rfl, ?_⟩
          cases hcases with
          | failed code => exact .quiet (huntouched.trans (BootstrapClient.fail_untouched _ _))
          | @accepted first second middle rest' hfirst hsecond hfork hnext hlast =>
              refine .fork (c := { s.client.withLength length with errorCode := none }) htype ?_
                (huntouched.trans ⟨rfl, rfl, rfl, rfl, rfl, rfl, fun _ => rfl⟩) hnext hlast hbelow
                rfl
              have hfront : forkFront env s.stream = some (first, second) := by
                unfold forkFront
                rw [hread]
                dsimp only
                rw [hlength]
                dsimp only
                rw [if_neg (by rw [not_or]; exact ⟨hpos, by omega⟩), hblocks, forkPair, hfirst]
                dsimp only
                rw [hsecond]
                exact if_pos hfork
              have hroom : ¬s.client.currSize ≥ (BootstrapClient.maxSize_ s.client.type).toNat := by
                rw [htype, BootstrapClient.maxSize_forks]
                omega
              unfold front
              rw [if_neg hroom, htype]
              dsimp only
              rw [hfront]
              rfl
        · rw [hblocks]
          exact ⟨_, rfl, .quiet (huntouched.trans (BootstrapClient.fail_untouched _ _))⟩
  · rw [hread]
    exact ⟨_, rfl, .quiet (BootstrapClient.fail_untouched _ _)⟩

-- No round leaves the arrays.
theorem round_taken (env : Env) (s : BootstrapSession) :
    ∃ s', s.round env = .ok s' ∧ Taken env s s' := by
  by_cases htype : s.client.type = .fork
  · exact round_fork env htype
  · exact round_account env htype

end BootstrapSession

end Raicoin
