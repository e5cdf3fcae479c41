import Raicoin.Lib.Retry
import Raicoin.Refinement.Effect
import Raicoin.Refinement.Heads

-- Why a block cannot be rolled back yet, and which block has to go before it.
namespace Raicoin

open Lib Lib.Process

namespace RollbackBlockVisitor

variable {env : Env} {A : Lattice env} {s : Store} {b : Block} {info : AccountInfo}
  {t : Transaction} {code : ErrorCode}

-- All methods start with `Check`.
theorem rollbackBlock_of_check (hlegal : b.Legal) (h : check env t.store b = .error code) :
    rollbackBlock_ env b t = .error code t := by
  have hstop {α β : Type} (f : Checked → Except ErrorCode α) (g : α → TransactionM β) :
      (examine (fun s => check env s b >>= f) >>= g) t = .error code t := by
    refine bind_of_error (examine_eq_error.mpr ⟨?_, rfl⟩) g
    rw [h]
    rfl
  have hplain {β : Type} (g : Checked → TransactionM β) :
      (examine (fun s => check env s b) >>= g) t = .error code t :=
    bind_of_error (examine_eq_error.mpr ⟨h, rfl⟩) g
  unfold rollbackBlock_
  rw [Block.visit_legal _ _ hlegal]
  cases hop : b.opcode with
  | invalid => exact absurd hop hlegal.opcode_ne
  | send => exact hstop _ _
  | receive => exact hstop _ _
  | change => exact hplain _
  | credit => exact hplain _
  | reward => exact hstop _ _
  | destroy => exact hplain _
  | bind => exact hstop _ _

-- For a block of the ledger, `Check` comes down to two questions.
theorem check_eq (h : Represents s A) (hb : b ∈ A.blocks)
    (hinfo : s.accounts.get b.account = some info) :
    check env s b = if b.height ≠ info.headHeight then .error .BLOCK_PROCESS_ROLLBACK_NON_HEAD
      else checkPrevious env s b info := by
  obtain ⟨c, hc, haccount, hheight, hhash, -, htop, hget⟩ := h.head hinfo
  have hexists : s.blockExists (env.hash b) = true := by
    obtain ⟨stored, hstored, -⟩ := Option.map_eq_some_iff.mp (h.blockGet hb)
    exact (Table.contains_iff _ _).mpr ⟨stored, hstored⟩
  have hfound : (s.accountInfoGet b.account).filter AccountInfo.valid = some info := by
    simp [Store.accountInfoGet, hinfo, Option.filter, h.valid hinfo]
  have htail := (h.accounts.describes _ _ hinfo).tailHeight
  have hle := A.le_top htop hb haccount.symm
  have hrange : ¬(b.height < info.tailHeight ∨ b.height > info.headHeight) := by omega
  have htails : ¬(info.tailHeight = info.headHeight ∧ info.tailHeight ≠ 0) := by omega
  rw [check, returnIf_pass (by simp [hexists]), orReturn_pass hfound, returnIf_pass hrange,
    returnIf_pass htails]
  by_cases hhead : b.height = info.headHeight
  · obtain rfl := A.unique c hc b hb haccount (hheight.trans hhead.symm)
    rw [returnIf_pass (not_not.mpr hhead), returnIf_pass (not_not.mpr hhash), orReturn_pass hget,
      returnIf_pass (not_not.mpr rfl), if_neg (not_not.mpr hhead)]
  · rw [returnIf_stop hhead, if_pos hhead]

theorem check_nonHead (h : Represents s A) (hb : b ∈ A.blocks) {c : Block} (hc : c ∈ A.blocks)
    (hf : Follows b c) : check env s b = .error .BLOCK_PROCESS_ROLLBACK_NON_HEAD := by
  obtain ⟨info, hinfo⟩ := Option.isSome_iff_exists.mp (h.accounts.opened b hb)
  obtain ⟨d, hd, haccount, hheight, -, -, htop, -⟩ := h.head hinfo
  have hle := A.le_top htop hc (hf.1.trans haccount.symm)
  rw [check_eq h hb hinfo, if_pos]
  unfold Follows at hf
  omega

-- The reward for the time that `b` ended is gone.
theorem check_rewarded (h : Represents s A) (hb : b ∈ A.blocks)
    (htop : ∀ c ∈ A.blocks, ¬Follows b c) {p : Block} (hp : p ∈ A.blocks) (hf : Follows p b)
    {r : Block} (hr : r ∈ A.blocks) (hop : r.opcode = .reward) (hlink : r.link = env.hash p) :
    check env s b = .error .BLOCK_PROCESS_ROLLBACK_REWARDED ∧
      r.account = p.representative := by
  obtain ⟨info, hinfo⟩ := Option.isSome_iff_exists.mp (h.accounts.opened b hb)
  obtain ⟨d, hd, haccount, hheight, -, -, hdtop, -⟩ := h.head hinfo
  obtain rfl := A.top_unique hb hd haccount.symm htop hdtop
  obtain ⟨reward, ⟨x, hx, hrep, hkey, c, hc, hxc, hne, -⟩, -⟩ := A.rewarded r hr hop
  obtain ⟨haccount', hhash⟩ := Prod.ext_iff.mp hkey
  obtain rfl := A.hash_inj x hx p hp (hhash.symm.trans hlink)
  obtain rfl := A.follower_unique hc hb hxc hf
  have hs := A.succeeds hx hc hxc
  have hz : c.height ≠ 0 := by
    unfold Follows at hf
    omega
  have hnone : s.rewardableInfoGet x.representative (env.hash x) = none := by
    rw [Store.rewardableInfoGet, Option.eq_none_iff_forall_ne_some]
    intro other hget
    exact ((h.rewardables _ _).mp hget).2 ⟨r, hr, hop, hlink⟩
  have hrep' : c.hasRepresentative = true := by rwa [Block.hasRepresentative_of_type hs.type]
  refine ⟨?_, haccount'⟩
  rw [check_eq h hb hinfo, if_neg (not_not.mpr hheight), checkPrevious, if_neg hz, hs.previous,
    orReturn_pass (h.blockGet hx)]
  dsimp only
  rw [if_pos ⟨hrep', hne⟩, orReturn_stop hnone]

-- What `b` sent has been received.
theorem send_received {info : AccountInfo} {previous : Option Block} (h : Represents t.store A)
    (hpassed : CheckPassed env t.store b info previous) (hlegal : b.Legal)
    (hop : b.opcode = .send) {r : Block} (hr : r ∈ A.blocks) (hopr : r.opcode = .receive)
    (hlink : r.link = env.hash b) :
    rollbackBlock_ env b t = .error .BLOCK_PROCESS_ROLLBACK_RECEIVED t ∧ r.account = b.link := by
  have hb := hpassed.mem h
  have hgenesis : r ≠ genesisBlock env.network := by
    rintro rfl
    exact A.hash_ne_link b hb hlink.symm
  obtain ⟨receivable, ⟨x, hx, -, hkey, -⟩, -⟩ := A.received r hr hopr hgenesis
  obtain ⟨haccount, hhash⟩ := Prod.ext_iff.mp hkey
  obtain rfl := A.hash_inj x hx b hb (hhash.symm.trans hlink)
  have hnone : t.store.receivableInfoGet x.link (env.hash x) = none := by
    rw [Store.receivableInfoGet, Option.eq_none_iff_forall_ne_some]
    intro other hget
    exact ((h.receivables _ _).mp hget).2 ⟨r, hr, hopr, hlink⟩
  have hcheck : checkSend env t.store x = .error .BLOCK_PROCESS_ROLLBACK_RECEIVED := by
    rw [checkSend, check_eq_ok.mpr ⟨info, previous, hpassed, rfl⟩]
    exact orReturn_stop hnone _ _
  refine ⟨?_, haccount⟩
  unfold rollbackBlock_
  rw [Block.visit_legal _ _ hlegal, hop]
  exact bind_of_error (examine_eq_error.mpr ⟨hcheck, rfl⟩) _

end RollbackBlockVisitor

section Attempt

variable {env : Env} {A : Lattice env} {l : Ledger} {b : Block}

theorem Lattice.Removable.not_depends (hrem : A.Removable b) :
    ∀ c ∈ A.blocks, ¬Depends env b c := by
  rintro c hc (hf | ⟨hsend, hop, hlink⟩ | ⟨hz, hop, hlink⟩)
  · exact hrem.top c hc hf
  · exact hrem.unreceived hsend ⟨c, hc, hop, hlink⟩
  · obtain ⟨p, hp, hs⟩ := A.linked b hrem.mem hz
    exact hrem.unrewarded p hp hs.follows ⟨c, hc, hop, hlink.trans hs.previous⟩

-- The head of an account depends on all its blocks.
theorem Represents.head_dependent {s : Store} (h : Represents s A) {r : Block}
    (hr : r ∈ A.blocks) :
    ∃ d, headOf s r.account = some d ∧ d ∈ dependents (Depends env) A.blocks r := by
  obtain ⟨info, hinfo⟩ := Option.isSome_iff_exists.mp (h.accounts.opened r hr)
  obtain ⟨d, hd, haccount, -, -, -, htop, -⟩ := h.head hinfo
  refine ⟨d, h.headOf_eq_some.mpr ⟨A.mem_heads.mpr ⟨hd, htop⟩, haccount⟩, ?_⟩
  exact A.along (R := fun x y => y ∈ dependents (Depends env) A.blocks x)
    (fun _ => dependents_self) dependents_trans
    (fun _ _ c hc hs => dependents_next dependents_self hc (.inl hs.follows)) hr hd haccount.symm
    (A.le_top htop hr haccount.symm)

-- Nothing makes the genesis block depend on another.
theorem Lattice.ne_genesis_of_depends {c : Block} (hb : b ∈ A.blocks) (h : Depends env b c) :
    c ≠ genesisBlock env.network := by
  rintro rfl
  rcases h with hf | ⟨-, -, hlink⟩ | ⟨-, hop, -⟩
  · have hz := (genesisBlock_opens env.network).height
    unfold Follows at hf
    omega
  · exact A.hash_ne_link b hb hlink.symm
  · obtain ⟨-, hreceive, -⟩ := genesisBlock_checked env.network
    simp [hreceive] at hop

-- A rollback that does not succeed pushes a block that has to go first.
def Pushes (env : Env) (A : Lattice env) (l : Ledger) (b : Block) : Prop :=
  ∃ c ∈ A.blocks, Depends env b c ∧ ∃ d ∈ dependents (Depends env) A.blocks c,
    ∀ stack, processBlockDynamicRollback_ env StoreCall.never l stack b =
      ⟨l, ⟨.rollback, some d⟩ :: stack, .error .BLOCK_PROCESS_CONTINUE⟩

theorem pushes_nonHead (h : Represents l.store A) (hb : b ∈ A.blocks) {c : Block}
    (hc : c ∈ A.blocks) (hf : Follows b c) : Pushes env A l b := by
  have hrun := RollbackBlockVisitor.rollbackBlock_of_check (A.legal b hb)
    (t := .begin_ l StoreCall.never) (RollbackBlockVisitor.check_nonHead h hb hc hf)
  have hnext : (l.store.blockSuccessorGet (env.hash b)).bind l.store.blockGet = some c := by
    obtain ⟨hash, hs, hget⟩ := h.blocks.get hb
    rcases hs with ⟨d, hd, hbd, rfl⟩ | ⟨hno, -⟩
    · obtain rfl := A.follower_unique hc hd hf hbd
      simp [Store.blockSuccessorGet, hget, h.blockGet hc]
    · exact absurd hf (hno c hc)
  refine ⟨c, hc, .inl hf, c, dependents_self, fun stack => ?_⟩
  rw [processBlockDynamicRollback_, hrun]
  dsimp only
  rw [Transaction.begin_store, hnext]
  rfl

theorem pushes_rewarded (h : Represents l.store A) (hb : b ∈ A.blocks)
    (htop : ∀ c ∈ A.blocks, ¬Follows b c) {p : Block} (hp : p ∈ A.blocks) (hf : Follows p b)
    {r : Block} (hr : r ∈ A.blocks) (hop : r.opcode = .reward) (hlink : r.link = env.hash p) :
    Pushes env A l b := by
  obtain ⟨hcheck, haccount⟩ := RollbackBlockVisitor.check_rewarded h hb htop hp hf hr hop hlink
  have hrun := RollbackBlockVisitor.rollbackBlock_of_check (A.legal b hb)
    (t := .begin_ l StoreCall.never) hcheck
  have hs := A.succeeds hp hb hf
  obtain ⟨d, hhead, hd⟩ := h.head_dependent hr
  have hz : b.height ≠ 0 := by
    unfold Follows at hf
    omega
  refine ⟨r, hr, .inr (.inr ⟨hz, hop, hlink.trans hs.previous.symm⟩), d, hd, fun stack => ?_⟩
  rw [processBlockDynamicRollback_, hrun]
  dsimp only
  rw [Transaction.begin_store, hs.previous, h.blockGet hp, Option.bind_some, ← haccount, hhead]
  rfl

theorem pushes_received (h : Represents l.store A) {info : AccountInfo} {previous : Option Block}
    (hpassed : CheckPassed env l.store b info previous) (hop : b.opcode = .send) {r : Block}
    (hr : r ∈ A.blocks) (hopr : r.opcode = .receive) (hlink : r.link = env.hash b) :
    Pushes env A l b := by
  obtain ⟨hrun, haccount⟩ := RollbackBlockVisitor.send_received
    (t := .begin_ l StoreCall.never) h hpassed (A.legal b (hpassed.mem h)) hop hr hopr hlink
  obtain ⟨d, hhead, hd⟩ := h.head_dependent hr
  refine ⟨r, hr, .inr (.inl ⟨hop, hopr, hlink⟩), d, hd, fun stack => ?_⟩
  rw [processBlockDynamicRollback_, hrun]
  dsimp only
  rw [Transaction.begin_store, ← haccount, hhead]
  rfl

theorem rollback_or_push (h : Represents l.store A) (hb : b ∈ A.blocks)
    (hgenesis : b ≠ genesisBlock env.network) :
    (∃ (hrem : A.Removable b) (l' : Ledger), Represents l'.store (A.pop b hrem) ∧
      Outcome env (.rollback b) StoreCall.never l l' ∧
      ∀ stack, processBlockDynamicRollback_ env StoreCall.never l stack b = ⟨l', stack, .ok ()⟩) ∨
    Pushes env A l b := by
  by_cases htop : ∀ c ∈ A.blocks, ¬Follows b c
  · by_cases hreward : ∀ p ∈ A.blocks, Follows p b → ¬Taken A.blocks .reward (env.hash p)
    · by_cases hreceive : b.opcode = .send → ¬Taken A.blocks .receive (env.hash b)
      · have hrem : A.Removable b := ⟨hb, hgenesis, htop, hreceive, hreward⟩
        obtain ⟨info, previous, hchecks, hrun⟩ := rollbackBlock_of_removable
          (t := .begin_ l StoreCall.never) h hrem rfl
        have houtcome : Outcome env (.rollback b) StoreCall.never l _ := .commit hrun
        rw [removed_commit] at houtcome
        refine .inl ⟨hrem, _, hchecks.represents h hrem, houtcome, fun stack => ?_⟩
        rw [processBlockDynamicRollback_, hrun]
        dsimp only
        rw [removed_commit]
      · push Not at hreceive
        obtain ⟨hop, r, hr, hopr, hlink⟩ := hreceive
        obtain ⟨info, previous, hpassed, -⟩ := checkPassed_of_top h hb htop hreward
        exact .inr (pushes_received h hpassed hop hr hopr hlink)
    · push Not at hreward
      obtain ⟨p, hp, hf, r, hr, hop, hlink⟩ := hreward
      exact .inr (pushes_rewarded h hb htop hp hf hr hop hlink)
  · push Not at htop
    obtain ⟨c, hc, hf⟩ := htop
    exact .inr (pushes_nonHead h hb hc hf)

end Attempt

end Raicoin
