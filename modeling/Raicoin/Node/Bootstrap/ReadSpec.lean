import Raicoin.Node.Bootstrap.Client

-- What the callbacks of the client can do to it.
namespace Raicoin

open Lib

theorem Access.ok_bind {α β : Type} (a : α) (f : α → Access β) :
    ((Except.ok a : Access α) >>= f) = f a := rfl

-- Inside of an array, an access goes on.
theorem storeAt_bind {α β : Type} {size index : Nat} (h : index < size) (array : Nat → α)
    (value : α) (f : (Nat → α) → Access β) :
    (storeAt size array index value >>= f) = f (Function.update array index value) := by
  rw [storeAt, if_pos h]
  rfl

theorem loadAt_bind {α β : Type} {size index : Nat} (h : index < size) (array : Nat → α)
    (f : α → Access β) : (loadAt size array index >>= f) = f (array index) := by
  rw [loadAt, if_pos h]
  rfl

namespace BootstrapClient

variable {c c' : BootstrapClient}

theorem maxSize_accounts {type : BootstrapType} (h : type ≠ .fork) :
    (maxSize_ type).toNat = MAX_ACCOUNTS := by
  cases type with
  | full => decide
  | light => decide
  | fork => exact absurd rfl h

theorem maxSize_forks : (maxSize_ .fork).toNat = MAX_FORKS := by decide

-- What is not touched when the callback leaves without an entry.
structure Untouched (c c' : BootstrapClient) : Prop where
  next : c'.next = c.next
  nextHeight : c'.nextHeight = c.nextHeight
  type : c'.type = c.type
  currSize : c'.currSize = c.currSize
  total : c'.total = c.total
  accounts : c'.accounts = c.accounts
  first : ∀ i, (c'.forks i).first = (c.forks i).first

inductive AccountRead (c : BootstrapClient) (bytes : List UInt8) : BootstrapClient → Prop where
  | failed (code : ErrorCode) : AccountRead c bytes (c.fail code)
  | ended {account : BootstrapAccount} {rest : List UInt8}
      (hread : BootstrapAccount.deserialize bytes = .ok account rest)
      (hheight : account.height = invalidHeight) :
      AccountRead c bytes { c with
        errorCode := none
        finished := if c.currSize = 0 then true else c.finished
        continue_ := false
        accountsSize := c.currSize }
  | accepted {account : BootstrapAccount} {rest : List UInt8}
      (hread : BootstrapAccount.deserialize bytes = .ok account rest)
      (hheight : account.height ≠ invalidHeight) (hnext : ¬account.account < c.next)
      (hsize : c.currSize < (maxSize_ c.type).toNat) :
      AccountRead c bytes { c with
        errorCode := none
        accounts := Function.update c.accounts c.currSize account
        currSize := c.currSize + 1
        next := account.account + 1 }

theorem readAccount_cases (htype : c.type ≠ .fork) (bytes : List UInt8) :
    ∃ c', c.readAccount (some bytes) = .ok c' ∧ AccountRead c bytes c' := by
  unfold readAccount
  dsimp only
  split
  · exact ⟨_, rfl, .failed _⟩
  split
  · exact ⟨_, rfl, .failed _⟩
  · rename_i account rest hread
    by_cases hheight : account.height = invalidHeight
    · rw [if_pos hheight]
      exact ⟨_, rfl, .ended hread hheight⟩
    rw [if_neg hheight]
    by_cases hnext : account.account < c.next
    · rw [if_pos hnext]
      exact ⟨_, rfl, .failed _⟩
    rw [if_neg hnext]
    by_cases hsize : c.currSize ≥ (maxSize_ c.type).toNat
    · rw [if_pos hsize]
      exact ⟨_, rfl, .failed _⟩
    · have hlt : c.currSize < MAX_ACCOUNTS := by
        rw [← maxSize_accounts htype]
        omega
      rw [if_neg hsize, storeAt_bind hlt]
      exact ⟨_, rfl, .accepted hread hheight hnext (by omega)⟩

theorem fail_untouched (c : BootstrapClient) (code : ErrorCode) : c.Untouched (c.fail code) :=
  ⟨rfl, rfl, rfl, rfl, rfl, rfl, fun _ => rfl⟩

-- The client that knows the length of the next fork.
def withLength (c : BootstrapClient) (length : UInt16) : BootstrapClient :=
  { c with forks := Function.update c.forks c.currSize { c.forks c.currSize with length } }

theorem withLength_length (c : BootstrapClient) (length : UInt16) :
    ((c.withLength length).forks (c.withLength length).currSize).length = length :=
  congrArg BootstrapFork.length (Function.update_self c.currSize _ c.forks)

theorem withLength_untouched (c : BootstrapClient) (length : UInt16) :
    c.Untouched (c.withLength length) := by
  refine ⟨rfl, rfl, rfl, rfl, rfl, rfl, fun i => ?_⟩
  change (Function.update c.forks c.currSize _ i).first = _
  rw [Function.update_apply]
  split
  · rename_i hi
    rw [hi]
  · rfl

theorem Untouched.trans {c'' : BootstrapClient} (h : c.Untouched c') (h' : c'.Untouched c'') :
    c.Untouched c'' :=
  ⟨h'.next.trans h.next, h'.nextHeight.trans h.nextHeight, h'.type.trans h.type,
    h'.currSize.trans h.currSize, h'.total.trans h.total, h'.accounts.trans h.accounts,
    fun i => (h'.first i).trans (h.first i)⟩

inductive LengthRead (c : BootstrapClient) (bytes : List UInt8) : BootstrapClient → Prop where
  | failed (code : ErrorCode) : LengthRead c bytes (c.fail code)
  | ended : LengthRead c bytes { c with
      finished := if c.currSize = 0 then true else c.finished
      continue_ := false
      forksSize := c.currSize }
  | announced {length : UInt16} {rest : List UInt8}
      (hread : (streamRead : StreamM UInt16) bytes = .ok length rest) (hlength : length ≠ 0)
      (hbuffer : length.toNat ≤ BUFFER_SIZE_) (hsize : c.currSize < MAX_FORKS) :
      LengthRead c bytes (c.withLength length)

theorem readForkLength_cases (htype : c.type = .fork) (bytes : List UInt8) :
    ∃ c', c.readForkLength (some bytes) = .ok c' ∧ LengthRead c bytes c' := by
  unfold readForkLength
  dsimp only
  split
  · exact ⟨_, rfl, .failed _⟩
  split
  · exact ⟨_, rfl, .failed _⟩
  · rename_i length rest hread
    by_cases hbuffer : length.toNat > BUFFER_SIZE_
    · rw [if_pos hbuffer]
      exact ⟨_, rfl, .failed _⟩
    rw [if_neg hbuffer]
    by_cases hlength : length = 0
    · rw [if_pos hlength]
      exact ⟨_, rfl, .ended⟩
    rw [if_neg hlength]
    by_cases hsize : c.currSize ≥ (maxSize_ c.type).toNat
    · rw [if_pos hsize]
      exact ⟨_, rfl, .failed _⟩
    · have hlt : c.currSize < MAX_FORKS := by
        rw [← maxSize_forks, ← htype]
        omega
      rw [if_neg hsize, loadAt_bind hlt, storeAt_bind hlt]
      exact ⟨_, rfl, .announced hread hlength (by omega) hlt⟩

-- The client after a fork that it has accepted.
def withFork (c : BootstrapClient) (first second : Block) : BootstrapClient :=
  { c with
    forks := Function.update c.forks c.currSize
      { c.forks c.currSize with first := some first, second := some second }
    currSize := c.currSize + 1
    next := if first.height < 2 ^ 64 - 1 then first.account else first.account + 1
    nextHeight := if first.height < 2 ^ 64 - 1 then UInt64.ofNat (first.height + 1) else 0 }

theorem acceptFork_of_lt (h : c.currSize < MAX_FORKS) (first second : Block) :
    c.acceptFork first second = .ok (c.withFork first second) := by
  unfold acceptFork withFork
  rw [loadAt_bind h, storeAt_bind h]
  dsimp only
  split <;> rfl

-- The height that the next fork of the same account has to pass, if the batch has one.
def LastBelow (c : BootstrapClient) (block : Block) : Prop :=
  0 < c.currSize → block.account = c.next →
    (((c.forks (c.currSize - 1)).first.map Block.height).getD 0) < block.height

inductive BlocksRead (env : Env) (c : BootstrapClient) (bytes : List UInt8) :
    BootstrapClient → Prop where
  | failed (code : ErrorCode) : BlocksRead env c bytes (c.fail code)
  | accepted {first second : Block} {middle rest : List UInt8}
      (hfirst : deserializeBlock env bytes = .ok first middle)
      (hsecond : deserializeBlock env middle = .ok second rest)
      (hfork : first.forkWith second = true) (hnext : ¬first.account < c.next)
      (hlast : c.LastBelow first) :
      BlocksRead env c bytes ({ c with errorCode := none }.withFork first second)

theorem readForkBlocks_cases (env : Env) (hsize : c.currSize < MAX_FORKS) (bytes : List UInt8) :
    ∃ c', c.readForkBlocks env (some bytes) = .ok c' ∧ BlocksRead env c bytes c' := by
  have hlast : c.currSize - 1 < MAX_FORKS := by omega
  unfold readForkBlocks
  dsimp only
  rw [loadAt_bind hsize]
  by_cases hlength : bytes.length ≠ (c.forks c.currSize).length.toNat ∨ bytes.length = 0
  · rw [if_pos hlength]
    exact ⟨_, rfl, .failed _⟩
  rw [if_neg hlength]
  split
  · exact ⟨_, rfl, .failed _⟩
  · rename_i first middle hfirst
    split
    · exact ⟨_, rfl, .failed _⟩
    · rename_i second rest hsecond
      by_cases hfork : first.forkWith second = false ∨ first.account < c.next
      · rw [if_pos hfork]
        exact ⟨_, rfl, .failed _⟩
      rw [if_neg hfork]
      rw [not_or, Bool.not_eq_false] at hfork
      have haccept := acceptFork_of_lt (c := { c with errorCode := none }) hsize first second
      by_cases hsame : 0 < c.currSize ∧ first.account = c.next
      · rw [if_pos hsame, lastHeight, loadAt_bind hlast]
        by_cases hbelow : first.height ≤ ((c.forks (c.currSize - 1)).first.map Block.height).getD 0
        · refine ⟨_, ?_, .failed .BOOTSTRAP_FORK_BLOCK⟩
          exact if_pos hbelow
        · refine ⟨_, ?_, .accepted hfirst hsecond hfork.1 hfork.2 fun _ _ => ?_⟩
          · exact (if_neg hbelow).trans haccept
          · omega
      · rw [if_neg hsame]
        exact ⟨_, haccept, .accepted hfirst hsecond hfork.1 hfork.2
          fun hpos haccount => absurd ⟨hpos, haccount⟩ hsame⟩

end BootstrapClient

end Raicoin
