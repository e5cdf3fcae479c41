import Raicoin.Node.Subscriptions
import Raicoin.Properties.Lookups

-- Every block that is confirmed is told once.
namespace Raicoin

open Lib

variable {env : Env}

-- A ledger without pruned blocks.
structure Unpruned (env : Env) (s : Store) : Prop where
  wellFormed : WellFormed env s
  tail : ∀ account info, s.accounts.get account = some info → info.tailHeight = 0
  valid : ∀ account info, s.accounts.get account = some info → info.valid = true
  hash_ne_zero : ∀ b ∈ s.blockSet, env.hash b ≠ 0

-- How many blocks of an account are confirmed.
def Store.confirmedOf (s : Store) (account : Account) : Nat :=
  match s.accounts.get account with
  | none => 0
  | some info => confirmedCount info.confirmedHeight

theorem Store.confirmedOf_eq {s : Store} {account : Account} {info : AccountInfo}
    (h : s.accounts.get account = some info) :
    s.confirmedOf account = confirmedCount info.confirmedHeight := by
  rw [confirmedOf, h]

-- A ledger that has grown by whole chains of blocks, with nothing confirmed meanwhile.
structure Grows (s s' : Store) : Prop where
  blocks : s.blockSet ⊆ s'.blockSet
  confirmed : ∀ account, s'.confirmedOf account = s.confirmedOf account

-- Whether a notice is about a block.
def Covers (b : Block) (notice : Block × Nat) : Prop :=
  notice.1.account = b.account ∧ confirmedCount notice.2 ≤ b.height ∧ b.height ≤ notice.1.height

instance (b : Block) : DecidablePred (Covers b) :=
  fun _ => inferInstanceAs (Decidable (_ ∧ _ ∧ _))

namespace Unpruned

variable {s : Store} {account : Account} {info : AccountInfo}

theorem opened (h : Unpruned env s) {b : Block} (hb : b ∈ s.blockSet) :
    ∃ info, s.accounts.get b.account = some info ∧ info.tailHeight = 0 ∧
      b.height ≤ info.headHeight := by
  obtain ⟨info, hinfo⟩ := h.wellFormed.owned b hb
  exact ⟨info, hinfo, h.tail _ _ hinfo, ((h.wellFormed.chains _ _ hinfo).within b hb rfl).2⟩

theorem head_lt (h : Unpruned env s) (hinfo : s.accounts.get account = some info) :
    info.headHeight < INVALID_HEIGHT := by
  obtain ⟨b, -, -, hheight, -⟩ := (h.wellFormed.chains _ _ hinfo).head
  have hvalid := h.valid _ _ hinfo
  have hlt := b.height_lt
  simp only [AccountInfo.valid, Bool.and_eq_true, Bool.not_eq_true', Bool.or_eq_false_iff,
    decide_eq_false_iff_not] at hvalid
  have hne := hvalid.1.1
  unfold INVALID_HEIGHT at hne ⊢
  omega

theorem confirmedCount_le (h : Unpruned env s) (hinfo : s.accounts.get account = some info) :
    confirmedCount info.confirmedHeight ≤ info.headHeight + 1 := by
  unfold confirmedCount
  split
  · omega
  · rename_i hne
    have hle := (h.wellFormed.chains _ _ hinfo).confirmed.resolve_left hne
    omega

-- The block at a height and the hash of the next one, by height for the first block of a walk
-- and by hash for the others.
theorem nextBlock_eq (h : Unpruned env s) (hinfo : s.accounts.get account = some info)
    {b : Block} (hb : LinkedChain.Member s account b) {successor : BlockHash}
    (hnext : (successor = 0 ∧ b.height + 1000 < 2 ^ 64) ∨ successor = env.hash b) :
    ∃ next, Subscriptions.nextBlock s account b.height successor = .found (b, next) ∧
      SuccessorAt env s account info b.height next := by
  have hchain := h.wellFormed.linkedChain hinfo
  have htail := h.tail _ _ hinfo
  have hle := ((h.wellFormed.chains _ _ hinfo).within b hb.1 hb.2).2
  unfold Subscriptions.nextBlock
  rcases hnext with ⟨rfl, hlow⟩ | rfl
  · obtain ⟨stored, hrecord, hlookup⟩ := hchain.lookupAt_inside hb (by omega) hle
      (.inl (by unfold Store.strideStart BLOCKS_PER_INDEX; omega))
    refine ⟨stored.successor, ?_, hchain.record_successor hb hrecord (by omega) hle⟩
    rw [if_pos rfl, Store.blockAndSuccessorAt, hlookup]
    exact congrArg (fun b => Lookup.found (b, stored.successor)) hrecord.2
  · obtain ⟨stored, hget, hblock⟩ := hchain.get_hash hb.1
    refine ⟨stored.successor, ?_, hchain.record_successor hb ⟨hget, hblock⟩ (by omega) hle⟩
    rw [if_neg (h.hash_ne_zero b hb.1), hget]
    exact congrArg (fun b => Lookup.found (b, stored.successor)) hblock

-- The walk goes over all heights up to the top, one block for each.
theorem successorWalk_heights (h : Unpruned env s) (hinfo : s.accounts.get account = some info)
    {top : Nat} (htop : top ≤ info.headHeight) (rounds : Nat) {b : Block}
    (hb : LinkedChain.Member s account b) (hrounds : b.height + rounds = top + 1)
    {successor : BlockHash}
    (hnext : (successor = 0 ∧ b.height + 1000 < 2 ^ 64) ∨ successor = env.hash b) :
    (Subscriptions.successorWalk s account top rounds b.height successor).map Block.height =
        List.range' b.height rounds ∧
      ∀ c ∈ Subscriptions.successorWalk s account top rounds b.height successor,
        LinkedChain.Member s account c := by
  induction rounds generalizing b successor with
  | zero => exact ⟨rfl, fun _ hc => (by cases hc)⟩
  | succ rounds ih =>
      obtain ⟨next, hfound, hsuccessor⟩ := h.nextBlock_eq hinfo hb hnext
      rw [Subscriptions.successorWalk, if_neg (by omega), hfound]
      dsimp only
      by_cases hlast : rounds = 0
      · subst hlast
        have halone : ∀ c ∈ [b], LinkedChain.Member s account c :=
          fun c hc => List.mem_singleton.mp hc ▸ hb
        split
        · exact ⟨rfl, halone⟩
        · exact ⟨rfl, halone⟩
      · have hbelow : b.height ≠ info.headHeight := by omega
        rw [SuccessorAt, if_neg hbelow] at hsuccessor
        obtain ⟨c, hc, hcaccount, hcheight, rfl⟩ := hsuccessor
        have hlt := c.height_lt
        obtain ⟨hheights, hmember⟩ := ih (b := c) ⟨hc, hcaccount⟩ (by omega) (.inr rfl)
        rw [if_neg (h.hash_ne_zero c hc), Nat.mod_eq_of_lt (by omega), ← hcheight]
        refine ⟨?_, ?_⟩
        · rw [List.map_cons, hheights, hcheight, List.range'_succ]
        · intro d hd
          rcases List.mem_cons.mp hd with rfl | hd
          · exact hb
          · exact hmember d hd

-- The blocks that a notice is about: those above what had been confirmed before.
theorem blocksOf_heights (h : Unpruned env s) {block : Block} (hb : block ∈ s.blockSet)
    {last : Nat} (hlast : last ≤ INVALID_HEIGHT)
    (hconfirmed : block.height < s.confirmedOf block.account)
    (hclose : block.height ≤ confirmedCount last + 1000) (hlow : block.height + 1000 < 2 ^ 64) :
    (Subscriptions.blocksOf s block last).map Block.height =
        List.range' (confirmedCount last) (block.height + 1 - confirmedCount last) ∧
      ∀ c ∈ Subscriptions.blocksOf s block last, LinkedChain.Member s block.account c := by
  obtain ⟨info, hinfo, htail, hhead⟩ := h.opened hb
  rw [Store.confirmedOf_eq hinfo] at hconfirmed
  unfold Subscriptions.blocksOf
  split_ifs with hold hnext
  · have hcount : confirmedCount last = last + 1 := if_neg hold.1
    rw [show block.height + 1 - confirmedCount last = 0 by omega]
    exact ⟨rfl, fun c hc => (by cases hc)⟩
  · have hcount : confirmedCount last = block.height := by
      unfold confirmedCount INVALID_HEIGHT at *
      split_ifs with hnone <;> omega
    rw [hcount, show block.height + 1 - block.height = 1 by omega]
    refine ⟨rfl, fun c hc => ?_⟩
    rw [List.mem_singleton.mp hc]
    exact ⟨hb, rfl⟩
  · have hle : confirmedCount last ≤ block.height := by
      unfold confirmedCount
      split_ifs with hnone <;> omega
    have hheight : Subscriptions.walkHeight block last = confirmedCount last := by
      unfold Subscriptions.walkHeight
      dsimp only
      change (if (confirmedCount last + 1000) % 2 ^ 64 < block.height then _ else
        confirmedCount last) = _
      rw [Nat.mod_eq_of_lt (by omega), if_neg (by omega)]
    have hshown : ¬(info.confirmedHeight = INVALID_HEIGHT ∨ info.confirmedHeight < block.height) := by
      unfold confirmedCount at hconfirmed
      split_ifs at hconfirmed with hnone <;> omega
    obtain ⟨first, hfirst, hfirstHeight⟩ := (h.wellFormed.linkedChain hinfo).member_at
      (show info.tailHeight ≤ confirmedCount last by omega) (by omega)
    rw [show s.accountInfoGet block.account = some info from hinfo]
    dsimp only
    rw [h.valid _ _ hinfo, if_neg (by decide), if_neg hshown, hheight, ← hfirstHeight]
    exact h.successorWalk_heights hinfo hhead _ hfirst (by omega) (.inl ⟨rfl, by omega⟩)

theorem count_blocksOf (h : Unpruned env s) {block : Block} (hb : block ∈ s.blockSet)
    {last : Nat} (hlast : last ≤ INVALID_HEIGHT)
    (hconfirmed : block.height < s.confirmedOf block.account)
    (hclose : block.height ≤ confirmedCount last + 1000) (hlow : block.height + 1000 < 2 ^ 64)
    {b : Block} (hmem : b ∈ s.blockSet) :
    (Subscriptions.blocksOf s block last).count b = if Covers b (block, last) then 1 else 0 := by
  obtain ⟨hheights, hmember⟩ := h.blocksOf_heights hb hlast hconfirmed hclose hlow
  obtain ⟨info, hinfo, htail, hhead⟩ := h.opened hmem
  have hnodup : (Subscriptions.blocksOf s block last).Nodup :=
    List.Nodup.of_map Block.height (hheights ▸ List.nodup_range')
  rw [hnodup.count]
  refine if_congr ?_ rfl rfl
  have hplace (c : Block) (hc : c ∈ Subscriptions.blocksOf s block last) :
      confirmedCount last ≤ c.height ∧ c.height ≤ block.height := by
    have hin : c.height ∈ List.range' (confirmedCount last) (block.height + 1 - confirmedCount last) :=
      hheights ▸ List.mem_map_of_mem hc
    rw [List.mem_range'_1] at hin
    omega
  constructor
  · intro hin
    exact ⟨(hmember b hin).2.symm, hplace b hin⟩
  · rintro ⟨haccount, hle, hge⟩
    have hin : b.height ∈ List.range' (confirmedCount last) (block.height + 1 - confirmedCount last) := by
      rw [List.mem_range'_1]
      dsimp only at hle hge
      omega
    rw [← hheights] at hin
    obtain ⟨c, hc, hsame⟩ := List.mem_map.mp hin
    have hcmember := hmember c hc
    rw [show block.account = b.account from haccount] at hcmember
    have heq : b = c := (h.wellFormed.linkedChain hinfo).member_unique ⟨hmem, rfl⟩ hcmember
      hsame.symm (by omega) (by omega)
    exact heq ▸ hc

-- A confirmation changes nothing but the confirmed height.
theorem confirm (h : Unpruned env s) {block : Block} (hb : block ∈ s.blockSet)
    (hinfo : s.accounts.get block.account = some info) :
    Unpruned env (confirmedStore s block info) := by
  have hget {account : Account} {info' : AccountInfo}
      (h' : (confirmedStore s block info).accounts.get account = some info') :
      ∃ old, s.accounts.get account = some old ∧
        (info' = old ∨ account = block.account ∧ info' = { old with confirmedHeight := block.height }) := by
    simp only [confirmedStore, Table.get_put] at h'
    split at h'
    · rename_i heq
      exact ⟨info, heq ▸ hinfo, .inr ⟨heq, (Option.some.inj h').symm⟩⟩
    · exact ⟨info', h', .inl rfl⟩
  refine ⟨⟨h.wellFormed.stored, ?_, ?_⟩, ?_, ?_, h.hash_ne_zero⟩
  · intro account info' h'
    obtain ⟨old, hold, rfl | ⟨rfl, rfl⟩⟩ := hget h'
    · exact { h.wellFormed.chains account info' hold with }
    · have hchain := h.wellFormed.chains _ old hold
      exact { hchain with confirmed := .inr (hchain.within block hb rfl).2 }
  · intro b hmem
    simp only [confirmedStore, Table.get_put]
    split
    · exact ⟨_, rfl⟩
    · exact h.wellFormed.owned b hmem
  · intro account info' h'
    obtain ⟨old, hold, rfl | ⟨rfl, rfl⟩⟩ := hget h'
    · exact h.tail _ _ hold
    · exact h.tail _ old hold
  · intro account info' h'
    obtain ⟨old, hold, rfl | ⟨rfl, rfl⟩⟩ := hget h'
    · exact h.valid _ _ hold
    · exact h.valid _ old hold

-- A block that is confirmed was there before the ledger grew.
theorem mem_of_grows (h : Unpruned env s) {s' : Store} (h' : Unpruned env s') (hgrows : Grows s s')
    {b : Block} (hb : b ∈ s'.blockSet) (hlt : b.height < s.confirmedOf b.account) :
    b ∈ s.blockSet := by
  cases hget : s.accounts.get b.account with
  | none =>
      rw [Store.confirmedOf, hget] at hlt
      exact absurd hlt (Nat.not_lt_zero _)
  | some info =>
      rw [Store.confirmedOf_eq hget] at hlt
      have hcount := h.confirmedCount_le hget
      have htail := h.tail _ _ hget
      obtain ⟨c, ⟨hc, haccount⟩, hheight⟩ := (h.wellFormed.linkedChain hget).member_at
        (show info.tailHeight ≤ b.height by omega) (by omega)
      obtain ⟨info', hinfo', htail', hhead'⟩ := h'.opened hb
      have hsame : c = b := (h'.wellFormed.linkedChain hinfo').member_unique
        ⟨hgrows.blocks hc, haccount⟩ ⟨hb, rfl⟩ hheight (by omega) hhead'
      exact hsame ▸ hc

end Unpruned

-- What a successful confirmation does to the count of its account.
theorem confirmBlock_ok {block : Block} {l : Ledger} {fails : StoreCall → Bool} {last : Nat}
    {t : Transaction} (h : Unpruned env l.store) (hb : block ∈ l.store.blockSet)
    (hok : confirmBlock_ env block (.begin_ l fails) = .ok last t) :
    Unpruned env t.commit.store ∧ t.commit.store.blockSet = l.store.blockSet ∧
      last ≤ INVALID_HEIGHT ∧ confirmedCount last = l.store.confirmedOf block.account ∧
      t.commit.store.confirmedOf block.account =
        max (l.store.confirmedOf block.account) (block.height + 1) ∧
      ∀ account, account ≠ block.account →
        t.commit.store.confirmedOf account = l.store.confirmedOf account := by
  simp only [confirmBlock_, Process.bind_eq_ok, examine_eq_ok] at hok
  obtain ⟨info, _, ⟨hchecks, rfl⟩, hwrite⟩ := hok
  simp only [checkConfirm, Except.bind_eq_ok, returnIf_eq_ok, orReturn_eq_ok] at hchecks
  obtain ⟨-, -, hinfo⟩ := hchecks
  have hinfo : l.store.accounts.get block.account = some info := hinfo
  have hcount := Store.confirmedOf_eq hinfo
  have hlast : info.confirmedHeight ≤ INVALID_HEIGHT := by
    have hhead := h.head_lt hinfo
    rcases (h.wellFormed.chains _ _ hinfo).confirmed with heq | hle <;> omega
  obtain ⟨info', hinfo', -, hhead⟩ := h.opened hb
  cases hinfo.symm.trans hinfo'
  have hheight := h.head_lt hinfo
  split at hwrite
  · rename_i hraise
    simp only [Process.bind_eq_ok, write_eq_ok, Store.accountInfoPut_eq_some] at hwrite
    obtain ⟨_, _, ⟨_, ⟨-, rfl⟩, rfl⟩, hpure⟩ := hwrite
    obtain ⟨rfl, rfl⟩ := (Process.pure_eq_ok _ _ _ _).mp hpure
    refine ⟨h.confirm hb hinfo, rfl, hlast, hcount.symm, ?_, ?_⟩
    · rw [hcount]
      change (confirmedStore l.store block info).confirmedOf _ = _
      rw [Store.confirmedOf, confirmedStore, Table.get_put, if_pos rfl]
      dsimp only
      unfold confirmedCount
      rw [if_neg (by omega)]
      split_ifs <;> omega
    · intro account hne
      change (confirmedStore l.store block info).confirmedOf _ = _
      rw [Store.confirmedOf, confirmedStore, Table.get_put, if_neg hne]
      rfl
  · rename_i hkeep
    obtain ⟨rfl, rfl⟩ := (Process.pure_eq_ok _ _ _ _).mp hwrite
    refine ⟨h, rfl, hlast, hcount.symm, ?_, fun _ _ => rfl⟩
    change l.store.confirmedOf _ = _
    rw [hcount]
    unfold confirmedCount
    rw [not_or] at hkeep
    rw [if_neg hkeep.1]
    omega

-- The block that a callback is about.
def Callback.subject : Callback → Block
  | .blockConfirm _ block => block
  | .receivableInfo _ _ _ block => block

namespace Subscriptions

variable {s : Store} {subs : Subscriptions}

theorem callbacksOf_subject {b : Block} {head : Nat} {callback : Callback}
    (h : callback ∈ subs.callbacksOf env s b head) : callback.subject = b := by
  rcases List.mem_append.mp h with h | h
  · split at h
    · rw [List.mem_singleton.mp h]
      rfl
    · cases h
  · obtain ⟨info, -, rfl⟩ := Option.map_eq_some_iff.mp (Option.mem_toList.mp h)
    rfl

-- A block that is told takes no request away but its own.
theorem callbacksOf_next {b c : Block} {head : Nat}
    (h : (c.account, c.height) ≠ (b.account, b.height)) :
    (subs.blockConfirm_ env s c head).1.callbacksOf env s b head =
      subs.callbacksOf env s b head := by
  have hexists : (subs.eraseBlock c).existsBlock b = subs.existsBlock b := by
    rw [existsBlock, existsBlock, eraseBlock, Table.contains, Table.get_del, if_neg h.symm,
      Table.contains]
  have htells : (subs.eraseBlock c).tellsBlock b head = subs.tellsBlock b head := by
    rw [tellsBlock, tellsBlock, hexists]
    rfl
  rw [blockConfirm_]
  dsimp only
  split
  · rw [callbacksOf, callbacksOf, htells]
    rfl
  · rfl

-- The callbacks of one round that are about a block.
theorem blocksConfirm_subject {head : Nat} {blocks : List Block}
    (hapart : blocks.Pairwise fun a c => (a.account, a.height) ≠ (c.account, c.height))
    (b : Block) (sent : List Callback) :
    (blocks.foldl (fun done block =>
      let (subs, sent) := done.1.blockConfirm_ env s block head
      (subs, done.2 ++ sent)) (subs, sent)).2.filter (fun callback => callback.subject = b) =
      sent.filter (fun callback => callback.subject = b) ++
        if b ∈ blocks then subs.callbacksOf env s b head else [] := by
  induction blocks generalizing subs sent with
  | nil => simp
  | cons c blocks ih =>
      obtain ⟨hfirst, hrest⟩ := List.pairwise_cons.mp hapart
      rw [List.foldl_cons, ih hrest, List.filter_append, List.append_assoc]
      congr 1
      have hown : (subs.blockConfirm_ env s c head).2 = subs.callbacksOf env s c head := rfl
      by_cases hsame : b = c
      · subst hsame
        have hlater : b ∉ blocks := fun hin => hfirst b hin rfl
        rw [if_neg hlater, List.append_nil, if_pos List.mem_cons_self, hown]
        exact List.filter_eq_self.mpr fun callback hin => decide_eq_true (callbacksOf_subject hin)
      · have hnone : (subs.blockConfirm_ env s c head).2.filter (fun x => x.subject = b) = [] := by
          rw [hown, List.filter_eq_nil_iff]
          intro callback hin heq
          exact hsame ((of_decide_eq_true heq).symm.trans (callbacksOf_subject hin))
        rw [hnone, List.nil_append]
        by_cases hin : b ∈ blocks
        · rw [if_pos hin, if_pos (List.mem_cons_of_mem _ hin), callbacksOf_next (hfirst b hin)]
        · rw [if_neg hin, if_neg (by simp [hsame, hin])]

theorem blockConfirm_subject {block : Block} {last : Nat} (now : Nat)
    (hapart : (blocksOf s block last).Pairwise fun a c =>
      (a.account, a.height) ≠ (c.account, c.height)) (b : Block) :
    (subs.blockConfirm env s block last now).sent.filter (fun callback => callback.subject = b) =
      if b ∈ blocksOf s block last then subs.callbacksOf env s b block.height else [] := by
  unfold blockConfirm
  split
  · rename_i hold
    have hnone : blocksOf s block last = [] := by
      unfold blocksOf
      exact if_pos hold
    rw [hnone]
    rfl
  · dsimp only
    have hsent := @blocksConfirm_subject env s (subs.updateCongestion block.account now) block.height
      _ hapart b []
    rw [List.filter_nil, List.nil_append] at hsent
    split <;> exact hsent

end Subscriptions

namespace Announcements

variable (env) in
-- Blocks of the chains are confirmed, none more than 1001 blocks beyond the last.
def Fits (s : Announcements) : AnnouncementAction → Prop
  | .confirm block fails => block ∈ s.store.blockSet ∧
      ∃ last t, confirmBlock_ env block (.begin_ s.ledger fails) = .ok last t ∧
        block.height ≤ confirmedCount last + 1000
  | .grow ledger => Unpruned env ledger.store ∧ Grows s.store ledger.store
  | .handle _ _ | .subscribe _ => True

-- The heights stay 1000 below where 64 bits end.
def Low : AnnouncementAction → Prop
  | .confirm block _ => block.height + 1000 < 2 ^ 64
  | .handle _ _ | .grow _ | .subscribe _ => True

-- A block of the ledger that was not confirmed when the run began, and now is.
def BecameConfirmed (l : Ledger) (s : Announcements) (b : Block) : Prop :=
  b ∈ s.store.blockSet ∧ l.store.confirmedOf b.account ≤ b.height ∧
    b.height < s.store.confirmedOf b.account

-- A notice is about blocks that have been confirmed since, as long as it waits.
structure Waits (s : Announcements) (notice : Block × Nat) : Prop where
  mem : notice.1 ∈ s.store.blockSet
  last : notice.2 ≤ INVALID_HEIGHT
  confirmed : notice.1.height < s.store.confirmedOf notice.1.account
  close : notice.1.height ≤ confirmedCount notice.2 + 1000
  low : notice.1.height + 1000 < 2 ^ 64

variable (env) in
-- Every block that was confirmed has been told, or a notice for it waits.
structure Counted (l : Ledger) (s : Announcements) : Prop where
  unpruned : Unpruned env s.store
  waits : ∀ notice ∈ s.notices, s.Waits notice
  grown : ∀ account, l.store.confirmedOf account ≤ s.store.confirmedOf account
  told : ∀ b ∈ s.confirmed, b ∈ s.store.blockSet
  counts : ∀ b ∈ s.store.blockSet, s.confirmed.count b + s.notices.countP (Covers b) =
    if l.store.confirmedOf b.account ≤ b.height ∧ b.height < s.store.confirmedOf b.account then 1
    else 0

variable {l : Ledger} {s : Announcements}

theorem ofLedger_counted (h : Unpruned env l.store) (subs : Subscriptions) :
    Counted env l (ofLedger l subs) where
  unpruned := h
  waits := fun _ h => (by cases h)
  grown := fun _ => Nat.le_refl _
  told := fun _ h => (by cases h)
  counts := by
    intro b _
    rw [if_neg (show ¬(l.store.confirmedOf b.account ≤ b.height ∧
      b.height < (ofLedger l subs).store.confirmedOf b.account) from fun h =>
        absurd h.2 (Nat.not_lt.mpr h.1))]
    rfl

theorem Counted.confirm (h : Counted env l s) {block : Block} {fails : StoreCall → Bool}
    (hfits : s.Fits env (.confirm block fails)) (hlow : Low (.confirm block fails)) :
    Counted env l (s.confirm env block fails) := by
  obtain ⟨hmem, last, t, hok, hclose⟩ := hfits
  obtain ⟨hunpruned, hblocks, hlast, hcount, hown, hothers⟩ := confirmBlock_ok h.unpruned hmem hok
  have hown : t.commit.store.confirmedOf block.account =
      max (s.store.confirmedOf block.account) (block.height + 1) := hown
  have hmore (account : Account) :
      s.store.confirmedOf account ≤ t.commit.store.confirmedOf account := by
    by_cases hsame : account = block.account
    · rw [hsame, hown]
      exact Nat.le_max_left _ _
    · exact Nat.le_of_eq (hothers account hsame).symm
  have hnew : ({ s with ledger := t.commit, notices := s.notices ++ [(block, last)] } :
      Announcements).Waits (block, last) := by
    refine ⟨?_, hlast, ?_, hclose, hlow⟩
    · change block ∈ t.commit.store.blockSet
      rwa [hblocks]
    · change block.height < t.commit.store.confirmedOf block.account
      rw [hown]
      omega
  unfold Announcements.confirm
  rw [hok]
  refine ⟨hunpruned, ?_, fun account => Nat.le_trans (h.grown account) (hmore account), ?_, ?_⟩
  · intro notice hnotice
    rcases List.mem_append.mp hnotice with hnotice | hnotice
    · obtain ⟨hin, hlast', hconfirmed, hclose', hlow'⟩ := h.waits notice hnotice
      exact ⟨hblocks.symm ▸ hin, hlast', Nat.lt_of_lt_of_le hconfirmed (hmore _), hclose', hlow'⟩
    · rw [List.mem_singleton.mp hnotice]
      exact hnew
  · intro b hb
    exact hblocks.symm ▸ h.told b hb
  · intro b hb
    have hcounts := h.counts b (hblocks ▸ hb)
    have hgrown := h.grown b.account
    rw [List.countP_append, List.countP_singleton, ← Nat.add_assoc, hcounts]
    change _ = if _ ∧ b.height < t.commit.store.confirmedOf b.account then 1 else 0
    by_cases hsame : b.account = block.account
    · rw [hsame] at hgrown ⊢
      have hcovers : Covers b (block, last) ↔
          s.store.confirmedOf block.account ≤ b.height ∧ b.height ≤ block.height := by
        unfold Covers
        dsimp only
        rw [hcount, hsame]
        simp only [true_and]
      simp only [hcovers, decide_eq_true_eq]
      rw [hown]
      split_ifs <;> omega
    · have hcovers : ¬Covers b (block, last) := fun hc => hsame hc.1.symm
      rw [hothers _ hsame]
      simp only [hcovers, decide_false, Bool.false_eq_true, if_false, Nat.add_zero]

theorem Counted.handle (h : Counted env l s) (index now : Nat) :
    Counted env l (s.handle env index now) := by
  unfold Announcements.handle
  cases hnotice : s.notices[index]? with
  | none => exact h
  | some notice =>
      obtain ⟨block, last⟩ := notice
      obtain ⟨hin, hnth⟩ := List.getElem?_eq_some_iff.mp hnotice
      have hwaits := h.waits _ (List.mem_of_getElem? hnotice)
      refine ⟨h.unpruned, ?_, h.grown, ?_, ?_⟩
      · intro other hother
        obtain ⟨hmem, hlast, hconfirmed, hclose, hlow⟩ := h.waits other (List.mem_of_mem_eraseIdx hother)
        exact ⟨hmem, hlast, hconfirmed, hclose, hlow⟩
      · intro b hb
        rcases List.mem_append.mp hb with hb | hb
        · exact h.told b hb
        · exact ((h.unpruned.blocksOf_heights hwaits.mem hwaits.last hwaits.confirmed hwaits.close
            hwaits.low).2 b hb).1
      · intro b hb
        have hcounts := h.counts b hb
        have herased : (s.notices.eraseIdx index).countP (Covers b) +
            (if Covers b (block, last) then 1 else 0) = s.notices.countP (Covers b) := by
          rw [← (List.getElem_cons_eraseIdx_perm hin).countP_eq, List.countP_cons, hnth]
          simp only [decide_eq_true_eq]
        have hnew : (Subscriptions.blocksOf s.store block last).count b =
            if Covers b (block, last) then 1 else 0 :=
          h.unpruned.count_blocksOf hwaits.mem hwaits.last hwaits.confirmed hwaits.close
            hwaits.low hb
        rw [List.count_append, hnew]
        rw [← herased] at hcounts
        change _ + (s.notices.eraseIdx index).countP (Covers b) =
          if _ ∧ b.height < s.store.confirmedOf b.account then 1 else 0
        omega

theorem Counted.told_lt (h : Counted env l s) {b : Block} (hb : b ∈ s.confirmed) :
    b.height < s.store.confirmedOf b.account := by
  have hcounts := h.counts b (h.told b hb)
  have hpos := List.count_pos_iff.mpr hb
  by_contra hge
  rw [if_neg (fun hc => hge hc.2)] at hcounts
  omega

theorem Counted.grow (h : Counted env l s) {ledger : Ledger} (hfits : s.Fits env (.grow ledger)) :
    Counted env l { s with ledger } := by
  obtain ⟨hunpruned, hblocks, hconfirmed⟩ := hfits
  refine ⟨hunpruned, ?_, ?_, fun b hb => hblocks (h.told b hb), ?_⟩
  · intro notice hnotice
    obtain ⟨hmem, hlast, hlt, hclose, hlow⟩ := h.waits notice hnotice
    exact ⟨hblocks hmem, hlast, (hconfirmed _).symm ▸ hlt, hclose, hlow⟩
  · intro account
    exact (hconfirmed account).symm ▸ h.grown account
  · intro b hb
    change _ = if _ ∧ b.height < ledger.store.confirmedOf b.account then 1 else 0
    rw [hconfirmed]
    by_cases hlt : b.height < s.store.confirmedOf b.account
    · exact h.counts b (h.unpruned.mem_of_grows hunpruned ⟨hblocks, hconfirmed⟩ hb hlt)
    · have htold : b ∉ s.confirmed := fun hin => hlt (h.told_lt hin)
      have hwaits : s.notices.countP (Covers b) = 0 := by
        rw [List.countP_eq_zero]
        intro notice hnotice hcovers
        obtain ⟨haccount, -, hle⟩ := of_decide_eq_true hcovers
        exact hlt (haccount ▸ Nat.lt_of_le_of_lt hle (h.waits notice hnotice).confirmed)
      rw [if_neg (fun hc => hlt hc.2), List.count_eq_zero.mpr htold]
      change 0 + s.notices.countP (Covers b) = 0
      rw [hwaits]

theorem Counted.take (h : Counted env l s) {action : AnnouncementAction} (hfits : s.Fits env action)
    (hlow : Low action) : Counted env l (s.take env action) := by
  cases action with
  | confirm block fails => exact h.confirm hfits hlow
  | handle index now => exact h.handle index now
  | grow ledger => exact h.grow hfits
  | subscribe subscriptions =>
      refine { h with waits := fun notice hnotice => ?_ }
      obtain ⟨hmem, hlast, hconfirmed, hclose, hlow⟩ := h.waits notice hnotice
      exact ⟨hmem, hlast, hconfirmed, hclose, hlow⟩

-- A step that tells of a block, in the round of a notice.
def Tells (b : Block) (notice : Block × Nat) (taken : Announcements × AnnouncementAction) : Prop :=
  ∃ index now, taken.2 = .handle index now ∧ taken.1.notices[index]? = some notice ∧
    b ∈ Subscriptions.blocksOf taken.1.store notice.1 notice.2

variable (env) in
-- What was sent about a block is what the round that told of it has sent.
structure Recorded (history : History Announcements AnnouncementAction) (s : Announcements) :
    Prop where
  untold : ∀ b, b ∉ s.confirmed → s.sent.filter (fun callback => callback.subject = b) = [] ∧
    ∀ taken ∈ history, ∀ notice, ¬Tells b notice taken
  told : ∀ b, ∀ taken ∈ history, ∀ notice, Tells b notice taken →
    s.sent.filter (fun callback => callback.subject = b) =
      taken.1.subscriptions.callbacksOf env taken.1.store b notice.1.height

theorem Counted.count_le (h : Counted env l s) {b : Block} (hb : b ∈ s.confirmed) :
    s.confirmed.count b ≤ 1 := by
  have hcounts := h.counts b (h.told b hb)
  split at hcounts <;> omega

theorem Counted.apart (h : Counted env l s) {notice : Block × Nat} (hnotice : notice ∈ s.notices) :
    (Subscriptions.blocksOf s.store notice.1 notice.2).Pairwise fun a c =>
      (a.account, a.height) ≠ (c.account, c.height) := by
  have hwaits := h.waits notice hnotice
  obtain ⟨hheights, -⟩ := h.unpruned.blocksOf_heights hwaits.mem hwaits.last hwaits.confirmed
    hwaits.close hwaits.low
  have hnodup : (List.map Block.height
      (Subscriptions.blocksOf s.store notice.1 notice.2)).Nodup :=
    hheights ▸ List.nodup_range'
  exact (List.pairwise_map.mp hnodup).imp fun hne heq => hne (congrArg Prod.snd heq)

-- A step that does not handle a notice tells nothing.
theorem Recorded.quiet {history : History Announcements AnnouncementAction} (h : Recorded env history s)
    {s' : Announcements} {action : AnnouncementAction} (hconfirmed : s'.confirmed = s.confirmed)
    (hsent : s'.sent = s.sent)
    (haction : ∀ b notice, ¬Tells b notice (s, action)) : Recorded env ((s, action) :: history) s' := by
  refine ⟨fun b hb => ?_, fun b taken htaken notice htells => ?_⟩
  · rw [hconfirmed] at hb
    obtain ⟨hnone, hbefore⟩ := h.untold b hb
    rw [hsent]
    exact ⟨hnone, List.forall_mem_cons.mpr ⟨haction b, hbefore⟩⟩
  · rw [hsent]
    rcases List.mem_cons.mp htaken with rfl | htaken
    · exact absurd htells (haction b notice)
    · exact h.told b taken htaken notice htells

theorem Recorded.handle {history : History Announcements AnnouncementAction}
    (h : Recorded env history s) (hcounted : Counted env l s) (index now : Nat) :
    Recorded env ((s, .handle index now) :: history) (s.handle env index now) := by
  have hafter := hcounted.handle index now
  unfold Announcements.handle at hafter ⊢
  cases hnotice : s.notices[index]? with
  | none =>
      rw [hnotice] at hafter
      refine h.quiet rfl rfl ?_
      rintro b notice ⟨_, _, heq, hnth, -⟩
      cases heq
      exact absurd (hnotice.symm.trans hnth) (by simp)
  | some notice =>
      obtain ⟨block, last⟩ := notice
      rw [hnotice] at hafter
      dsimp only at hafter ⊢
      have hsent := @Subscriptions.blockConfirm_subject env s.store s.subscriptions block last now
        (hcounted.apart (List.mem_of_getElem? hnotice))
      have hnow {b : Block} {notice' : Block × Nat}
          (htells : Tells b notice' (s, .handle index now)) :
          notice' = (block, last) ∧ b ∈ Subscriptions.blocksOf s.store block last := by
        obtain ⟨_, _, heq, hnth, hin⟩ := htells
        cases heq
        cases hnotice.symm.trans hnth
        exact ⟨rfl, hin⟩
      have hfresh {b : Block} (hin : b ∈ Subscriptions.blocksOf s.store block last) :
          b ∉ s.confirmed := by
        intro hold
        have hle := hafter.count_le (List.mem_append_left _ hold)
        rw [List.count_append] at hle
        have hpos := List.count_pos_iff.mpr hold
        have hpos' := List.count_pos_iff.mpr hin
        omega
      refine ⟨fun b hb => ?_, fun b taken htaken notice htells => ?_⟩
      · rw [List.mem_append, not_or] at hb
        obtain ⟨hnone, hbefore⟩ := h.untold b hb.1
        refine ⟨?_, List.forall_mem_cons.mpr ⟨fun notice' htells => hb.2 (hnow htells).2, hbefore⟩⟩
        rw [List.filter_append, hnone, hsent b, if_neg hb.2]
        rfl
      · rw [List.filter_append, hsent b]
        rcases List.mem_cons.mp htaken with rfl | htaken
        · obtain ⟨rfl, hin⟩ := hnow htells
          rw [(h.untold b (hfresh hin)).1, if_pos hin]
          rfl
        · have hother : b ∉ Subscriptions.blocksOf s.store block last := fun hin =>
            (h.untold b (hfresh hin)).2 taken htaken notice htells
          rw [if_neg hother, List.append_nil]
          exact h.told b taken htaken notice htells

theorem Recorded.take {history : History Announcements AnnouncementAction}
    (h : Recorded env history s) (hcounted : Counted env l s) {action : AnnouncementAction}
    (hfits : s.Fits env action) : Recorded env ((s, action) :: history) (s.take env action) := by
  cases action with
  | handle index now => exact h.handle hcounted index now
  | confirm block fails =>
      obtain ⟨-, last, t, hok, -⟩ := hfits
      refine h.quiet ?_ ?_ (fun b notice ⟨_, _, heq, _⟩ => by cases heq)
      · rw [Announcements.take, Announcements.confirm, hok]
      · rw [Announcements.take, Announcements.confirm, hok]
  | grow ledger => exact h.quiet rfl rfl fun b notice ⟨_, _, heq, _⟩ => by cases heq
  | subscribe subscriptions => exact h.quiet rfl rfl fun b notice ⟨_, _, heq, _⟩ => by cases heq

end Announcements

def announcementMachine (env : Env) (l : Ledger) (subs : Subscriptions) :
    Machine Announcements AnnouncementAction where
  start s := s = .ofLedger l subs ∧ Unpruned env l.store
  fits s := s.Fits env
  step s := s.take env

-- Whether a callback tells that a block is confirmed, or that what it sends can be received.
def Callback.confirms (b : Block) : Callback → Bool
  | .blockConfirm _ block => block = b
  | .receivableInfo _ _ _ _ => false

def Callback.pays (b : Block) : Callback → Bool
  | .blockConfirm _ _ => false
  | .receivableInfo _ _ _ block => block = b

theorem countP_of_subject {p : Callback → Bool} {b : Block}
    (hp : ∀ callback, p callback = true → callback.subject = b) (sent : List Callback) :
    sent.countP p = (sent.filter fun callback => callback.subject = b).countP p := by
  rw [List.countP_filter]
  refine List.countP_congr fun callback _ => ?_
  constructor
  · intro h
    simp [h, hp callback h]
  · intro h
    exact (Bool.and_eq_true_iff.mp h).1

theorem confirms_subject {b : Block} {callback : Callback} (h : callback.confirms b = true) :
    callback.subject = b := by
  cases callback with
  | blockConfirm account block => exact of_decide_eq_true h
  | receivableInfo account info hash block => cases h

theorem pays_subject {b : Block} {callback : Callback} (h : callback.pays b = true) :
    callback.subject = b := by
  cases callback with
  | blockConfirm account block => cases h
  | receivableInfo account info hash block => exact of_decide_eq_true h

-- One round tells a block at most once in each way.
theorem callbacksOf_counts {subs : Subscriptions} {s : Store} {b : Block} {head : Nat} :
    (subs.callbacksOf env s b head).countP (Callback.confirms b) =
        (if subs.tellsBlock b head then 1 else 0) ∧
      (subs.callbacksOf env s b head).countP (Callback.pays b) =
        if (subs.tellsReceivable env s b).isSome then 1 else 0 := by
  unfold Subscriptions.callbacksOf
  cases subs.tellsBlock b head <;> cases subs.tellsReceivable env s b <;>
    simp [Callback.confirms, Callback.pays]

theorem confirmed_told_once {l : Ledger} {subs : Subscriptions}
    {history : History Announcements AnnouncementAction} {s : Announcements}
    (h : (announcementMachine env l subs).Run
      (fun history _ => ∀ taken ∈ history, Announcements.Low taken.2) history s) (b : Block) :
    (s.confirmed.count b ≤ 1 ∧ (b ∈ s.confirmed → s.BecameConfirmed l b) ∧
        (s.notices = [] → s.BecameConfirmed l b → s.confirmed.count b = 1)) ∧
      ∀ taken ∈ history, ∀ notice, Announcements.Tells b notice taken →
        s.sent.countP (Callback.confirms b) =
            (if taken.1.subscriptions.tellsBlock b notice.1.height then 1 else 0) ∧
          s.sent.countP (Callback.pays b) =
            if (taken.1.subscriptions.tellsReceivable env taken.1.store b).isSome then 1 else 0 := by
  have hboth : s.Counted env l ∧ s.Recorded env history := by
    refine h.invariant (P := fun history s => s.Counted env l ∧ s.Recorded env history) ?_ ?_
    · rintro _ ⟨rfl, hunpruned⟩
      refine ⟨Announcements.ofLedger_counted hunpruned subs, ?_, ?_⟩
      · exact fun b _ => ⟨rfl, fun _ htaken => (by cases htaken)⟩
      · exact fun b _ htaken => (by cases htaken)
    · intro history s action _ hfits hallowed ⟨hcounted, hrecorded⟩
      exact ⟨hcounted.take hfits (hallowed _ List.mem_cons_self), hrecorded.take hcounted hfits⟩
  obtain ⟨hcounted, hrecorded⟩ := hboth
  refine ⟨⟨?_, ?_, ?_⟩, ?_⟩
  · by_cases hb : b ∈ s.confirmed
    · exact hcounted.count_le hb
    · rw [List.count_eq_zero.mpr hb]
      exact Nat.zero_le 1
  · intro hb
    have hcounts := hcounted.counts b (hcounted.told b hb)
    have hpos := List.count_pos_iff.mpr hb
    refine ⟨hcounted.told b hb, ?_⟩
    by_contra hnot
    rw [if_neg hnot] at hcounts
    omega
  · intro hnone ⟨hmem, hnew⟩
    have hcounts := hcounted.counts b hmem
    rw [if_pos hnew, hnone] at hcounts
    exact hcounts
  · intro taken htaken notice htells
    rw [countP_of_subject (fun _ => confirms_subject), countP_of_subject (fun _ => pays_subject),
      hrecorded.told b taken htaken notice htells]
    exact callbacksOf_counts

-- Every ledger that the node can reach is of this kind.
theorem Tracks.unpruned {blocks : Set Block} {l : Ledger} {A : Lattice env}
    (h : Tracks blocks l A) : Unpruned env l.store where
  wellFormed := h.represents.wellFormed
  tail := fun _ _ hinfo => (h.represents.accounts.describes _ _ hinfo).tailHeight
  valid := fun _ _ hinfo => h.represents.valid hinfo
  hash_ne_zero := by
    intro b hb
    exact A.hash_ne_zero b (h.represents.blockSet ▸ hb)

section LongChain

-- A chain of any length, all of whose blocks send to the account itself.
def longBlock (n : Nat) : Block :=
  sampleTx .send 1 1 0 (UInt64.ofNat n) 1 (BitVec.ofNat 256 n) 1 0 1

def longHash (n : Nat) : BlockHash := BitVec.ofNat 256 (n + 1)

-- The blocks below the head.
def longBlocks : Nat → Table BlockHash StoredBlock
  | 0 => .empty
  | n + 1 => (longBlocks n).put (longHash n) ⟨longBlock n, longHash (n + 1)⟩

def longIndex : Nat → Table (Account × Nat) BlockHash
  | 0 => .empty
  | n + 1 => if n % BLOCKS_PER_INDEX = 0 then (longIndex n).put (1, n) (longHash n) else longIndex n

def longInfo (head confirmedHeight : Nat) : AccountInfo where
  type := .txBlock
  forks := 0
  headHeight := head
  tailHeight := 0
  confirmedHeight := confirmedHeight
  head := longHash head
  tail := longHash 0

def longStore (head confirmedHeight : Nat) : Store :=
  { Store.empty with
    accounts := Table.empty.put 1 (longInfo head confirmedHeight)
    blocks := (longBlocks head).put (longHash head) ⟨longBlock head, 0⟩
    blocksIndex := longIndex (head + 1)
    receivables := Table.empty.put (1, longHash head) ⟨1, 0, 0⟩ }

def longLedger (head confirmedHeight : Nat) : Ledger :=
  .start false false (longStore head confirmedHeight)

variable {head confirmedHeight : Nat}

theorem longHash_inj {n m : Nat} (hn : n < 2 ^ 64) (hm : m < 2 ^ 64) (h : longHash n = longHash m) :
    n = m := by
  have heq := congrArg BitVec.toNat h
  rw [longHash, longHash, BitVec.toNat_ofNat, BitVec.toNat_ofNat] at heq
  omega

theorem longBlock_height {n : Nat} (h : n < 2 ^ 64) : (longBlock n).height = n :=
  UInt64.toNat_ofNat_of_lt' h

theorem longBlock_hash {n : Nat} (h : n < 2 ^ 64) : chainEnv.hash (longBlock n) = longHash n := by
  rw [chainEnv_hash, longBlock_height h, longHash]

theorem longBlocks_get {n : Nat} (hn : n ≤ 2 ^ 64) (hash : BlockHash) (stored : StoredBlock) :
    (longBlocks n).get hash = some stored ↔
      ∃ m < n, hash = longHash m ∧ stored = ⟨longBlock m, longHash (m + 1)⟩ := by
  induction n with
  | zero => simp [longBlocks]
  | succ n ih =>
      rw [longBlocks, Table.get_put]
      split
      · rename_i heq
        subst heq
        constructor
        · intro h
          exact ⟨n, by omega, rfl, (Option.some.inj h).symm⟩
        · rintro ⟨m, hm, hsame, rfl⟩
          rw [longHash_inj (by omega) (by omega) hsame]
      · rename_i hne
        rw [ih (by omega)]
        constructor
        · rintro ⟨m, hm, hrest⟩
          exact ⟨m, by omega, hrest⟩
        · rintro ⟨m, hm, rfl, rfl⟩
          have hother : m ≠ n := fun heq => hne (congrArg longHash heq)
          exact ⟨m, by omega, rfl, rfl⟩

theorem longIndex_get (n : Nat) (account : Account) (height : Nat) (hash : BlockHash) :
    (longIndex n).get (account, height) = some hash ↔
      account = 1 ∧ height < n ∧ height % BLOCKS_PER_INDEX = 0 ∧ hash = longHash height := by
  induction n with
  | zero => simp [longIndex]
  | succ n ih =>
      rw [longIndex]
      split
      · rename_i hmod
        rw [Table.get_put]
        split
        · rename_i heq
          obtain ⟨rfl, rfl⟩ := Prod.mk.inj heq
          constructor
          · intro h
            exact ⟨rfl, by omega, hmod, (Option.some.inj h).symm⟩
          · rintro ⟨-, -, -, rfl⟩
            rfl
        · rename_i hne
          rw [ih]
          constructor
          · rintro ⟨haccount, hlt, hrest⟩
            exact ⟨haccount, by omega, hrest⟩
          · rintro ⟨rfl, hlt, hrest⟩
            have hother : height ≠ n := fun heq => hne (heq ▸ rfl)
            exact ⟨rfl, by omega, hrest⟩
      · rename_i hmod
        rw [ih]
        constructor
        · rintro ⟨haccount, hlt, hrest⟩
          exact ⟨haccount, by omega, hrest⟩
        · rintro ⟨rfl, hlt, hzero, hrest⟩
          have hother : height ≠ n := fun heq => hmod (heq ▸ hzero)
          exact ⟨rfl, by omega, hzero, hrest⟩

theorem longStore_get (hhead : head < 2 ^ 64) (hash : BlockHash) (stored : StoredBlock) :
    (longStore head confirmedHeight).blocks.get hash = some stored ↔
      ∃ m ≤ head, hash = longHash m ∧
        stored = ⟨longBlock m, if m = head then 0 else longHash (m + 1)⟩ := by
  rw [longStore, Table.get_put]
  split
  · rename_i heq
    subst heq
    constructor
    · intro h
      exact ⟨head, Nat.le_refl _, rfl, by rw [if_pos rfl]; exact (Option.some.inj h).symm⟩
    · rintro ⟨m, hm, hsame, rfl⟩
      obtain rfl := longHash_inj hhead (by omega) hsame
      rw [if_pos rfl]
  · rename_i hne
    rw [longBlocks_get (by omega)]
    constructor
    · rintro ⟨m, hm, rfl, rfl⟩
      exact ⟨m, by omega, rfl, by rw [if_neg (by omega)]⟩
    · rintro ⟨m, hm, rfl, rfl⟩
      have hother : m ≠ head := fun heq => hne (congrArg longHash heq)
      exact ⟨m, by omega, rfl, by rw [if_neg hother]⟩

theorem mem_longStore (hhead : head < 2 ^ 64) {b : Block} :
    b ∈ (longStore head confirmedHeight).blockSet ↔ ∃ n ≤ head, b = longBlock n := by
  rw [Store.mem_blockSet]
  constructor
  · rintro ⟨hash, hget⟩
    obtain ⟨stored, hstored, rfl⟩ := Option.map_eq_some_iff.mp hget
    obtain ⟨n, hn, -, rfl⟩ := (longStore_get hhead hash stored).mp hstored
    exact ⟨n, hn, rfl⟩
  · rintro ⟨n, hn, rfl⟩
    exact ⟨longHash n, Option.map_eq_some_iff.mpr
      ⟨_, (longStore_get hhead _ _).mpr ⟨n, hn, rfl, rfl⟩, rfl⟩⟩

theorem longStore_successor (hhead : head < 2 ^ 64) {n : Nat} (hn : n ≤ head) :
    (longStore head confirmedHeight).blockSuccessorGet (longHash n) =
      some (if n = head then 0 else longHash (n + 1)) :=
  Option.map_eq_some_iff.mpr ⟨_, (longStore_get hhead _ _).mpr ⟨n, hn, rfl, rfl⟩, rfl⟩

theorem longStore_chain (hhead : head < INVALID_HEIGHT)
    (hconfirmed : confirmedHeight = INVALID_HEIGHT ∨ confirmedHeight ≤ head) :
    ChainWellFormed chainEnv (longStore head confirmedHeight) 1 (longInfo head confirmedHeight) := by
  unfold INVALID_HEIGHT at hhead
  have hmem {n : Nat} (hn : n ≤ head) : longBlock n ∈ (longStore head confirmedHeight).blockSet :=
    (mem_longStore (by omega)).mpr ⟨n, hn, rfl⟩
  have hwith {P : Block → Prop} (h : ∀ n ≤ head, P (longBlock n)) :
      ∀ b ∈ (longStore head confirmedHeight).blockSet, P b := by
    intro b hb
    obtain ⟨n, hn, rfl⟩ := (mem_longStore (by omega)).mp hb
    exact h n hn
  constructor
  case tail_le_head => exact Nat.zero_le _
  case at_height =>
    intro height _ hle
    change height ≤ head at hle
    refine ⟨longBlock height, ⟨hmem hle, rfl, longBlock_height (by omega)⟩, ?_⟩
    rintro b ⟨hb, -, hheight⟩
    obtain ⟨n, hn, rfl⟩ := (mem_longStore (by omega)).mp hb
    rw [longBlock_height (by omega)] at hheight
    rw [hheight]
  case within =>
    refine hwith fun n hn _ => ⟨Nat.zero_le _, ?_⟩
    rw [longBlock_height (by omega)]
    exact hn
  case tail => exact ⟨_, hmem (Nat.zero_le _), rfl, longBlock_height (by omega),
    longBlock_hash (by omega)⟩
  case head => exact ⟨_, hmem (Nat.le_refl _), rfl, longBlock_height (by omega),
    longBlock_hash (by omega)⟩
  case linked =>
    refine hwith fun n hn => hwith fun m hm _ _ hheight => ?_
    rw [longBlock_height (by omega), longBlock_height (by omega)] at hheight
    subst hheight
    rw [longBlock_hash (by omega), longBlock_hash (by omega), longStore_successor (by omega) hn,
      if_neg (by omega)]
    exact ⟨rfl, rfl⟩
  case last =>
    change (longStore head confirmedHeight).blockSuccessorGet (longHash head) = some 0
    rw [longStore_successor (by omega) (Nat.le_refl _), if_pos rfl]
  case type => exact hwith fun _ _ _ => rfl
  case monotone => exact hwith fun _ _ => hwith fun _ _ _ _ _ => ⟨Nat.le_refl _, Nat.le_refl _⟩
  case credit => exact hwith fun _ _ _ => Nat.le_refl _
  case index =>
    intro height hash
    change (longIndex (head + 1)).get (1, height) = some hash ↔ _
    rw [longIndex_get]
    constructor
    · rintro ⟨-, hlt, hmod, rfl⟩
      exact ⟨hmod, _, hmem (by omega), rfl, longBlock_height (by omega), longBlock_hash (by omega)⟩
    · rintro ⟨hmod, b, hb, -, hheight, rfl⟩
      obtain ⟨n, hn, rfl⟩ := (mem_longStore (by omega)).mp hb
      rw [longBlock_height (by omega)] at hheight
      subst hheight
      exact ⟨rfl, by omega, hmod, longBlock_hash (by omega)⟩
  case confirmed => exact hconfirmed

theorem longStore_unpruned (hhead : head < INVALID_HEIGHT)
    (hconfirmed : confirmedHeight = INVALID_HEIGHT ∨ confirmedHeight ≤ head) :
    Unpruned chainEnv (longStore head confirmedHeight) := by
  have hlt : head < 2 ^ 64 - 1 := hhead
  have hnonzero {n : Nat} (hn : n ≤ head) : longHash n ≠ 0 := by
    intro heq
    have hzero := congrArg BitVec.toNat heq
    rw [longHash, BitVec.toNat_ofNat] at hzero
    change (n + 1) % 2 ^ 256 = 0 at hzero
    omega
  have honly {account : Account} {info : AccountInfo}
      (h : (longStore head confirmedHeight).accounts.get account = some info) :
      account = 1 ∧ info = longInfo head confirmedHeight := by
    rw [longStore, Table.get_put] at h
    split at h
    · exact ⟨‹_›, (Option.some.inj h).symm⟩
    · rw [Table.get_empty] at h
      cases h
  refine ⟨⟨?_, ?_, ?_⟩, ?_, ?_, ?_⟩
  · intro hash b hget
    obtain ⟨stored, hstored, rfl⟩ := Option.map_eq_some_iff.mp hget
    obtain ⟨n, hn, rfl, rfl⟩ := (longStore_get (by omega) hash stored).mp hstored
    exact longBlock_hash (by omega)
  · intro account info h
    obtain ⟨rfl, rfl⟩ := honly h
    exact longStore_chain hhead hconfirmed
  · intro b hb
    obtain ⟨n, hn, rfl⟩ := (mem_longStore (by omega)).mp hb
    exact ⟨longInfo head confirmedHeight, by rw [longStore, Table.get_put]; exact if_pos rfl⟩
  · intro account info h
    obtain ⟨rfl, rfl⟩ := honly h
    rfl
  · intro account info h
    obtain ⟨rfl, rfl⟩ := honly h
    have htail : (0 : Nat) ≠ INVALID_HEIGHT := by decide
    simp only [AccountInfo.valid, longInfo, Bool.and_eq_true, Bool.not_eq_true',
      Bool.or_eq_false_iff]
    exact ⟨⟨decide_eq_false (Nat.ne_of_lt hhead), decide_eq_false htail⟩,
      decide_eq_false (hnonzero (Nat.le_refl _)), decide_eq_false (hnonzero (Nat.zero_le _))⟩
  · intro b hb
    obtain ⟨n, hn, rfl⟩ := (mem_longStore (by omega)).mp hb
    rw [longBlock_hash (by omega)]
    exact hnonzero hn

theorem longStore_account : (longStore head confirmedHeight).accounts.get 1 =
    some (longInfo head confirmedHeight) := by
  rw [longStore, Table.get_put]
  exact if_pos rfl

-- A block above the confirmed height is confirmed.
theorem longConfirm_ok (hhead : head < INVALID_HEIGHT) {n : Nat} (hn : n ≤ head)
    (hraise : confirmedHeight = INVALID_HEIGHT ∨ n > confirmedHeight) :
    ∃ t, confirmBlock_ chainEnv (longBlock n)
        (.begin_ (longLedger head confirmedHeight) StoreCall.never) = .ok confirmedHeight t ∧
      t.commit.store = confirmedStore (longStore head confirmedHeight) (longBlock n)
        (longInfo head confirmedHeight) := by
  unfold INVALID_HEIGHT at hhead
  have hexists : (longStore head confirmedHeight).blockExists (chainEnv.hash (longBlock n)) = true := by
    rw [longBlock_hash (by omega)]
    exact (Table.contains_iff _ _).mpr
      ⟨_, (longStore_get (by omega) _ _).mpr ⟨n, hn, rfl, rfl⟩⟩
  have hchecks : checkConfirm chainEnv (longStore head confirmedHeight) (longBlock n) =
      .ok (longInfo head confirmedHeight) := by
    rw [checkConfirm, Except.bind_eq_ok]
    refine ⟨(), (returnIf_eq_ok _ _ _).mpr (by rw [hexists]; decide), ?_⟩
    exact (orReturn_eq_ok _ _ _).mpr longStore_account
  have hheight : (longBlock n).height = n := longBlock_height (by omega)
  refine ⟨(Transaction.begin_ (longLedger head confirmedHeight) StoreCall.never).setStore
    (confirmedStore (longStore head confirmedHeight) (longBlock n) (longInfo head confirmedHeight)),
    (Process.bind_eq_ok _ _ _ _ _).mpr ⟨_, _, examine_eq_ok.mpr ⟨hchecks, rfl⟩, ?_⟩, rfl⟩
  rw [if_pos (by rw [hheight]; exact hraise)]
  refine (Process.bind_eq_ok _ _ _ _ _).mpr ⟨(), _, write_eq_ok.mpr ⟨_, ?_, rfl⟩, rfl⟩
  exact Store.accountInfoPut_eq_some.mpr ⟨rfl, rfl⟩

-- A run in which the head is confirmed and told.
theorem longRun (hhead : head < INVALID_HEIGHT)
    (hconfirmed : confirmedHeight = INVALID_HEIGHT ∨ confirmedHeight < head)
    (hclose : head ≤ confirmedCount confirmedHeight + 1000) (subs : Subscriptions)
    {allowed : History Announcements AnnouncementAction → Announcements → Prop}
    (hallowed : ∀ history s, (∀ taken ∈ history,
      Announcements.Low (.confirm (longBlock head) StoreCall.never) → Announcements.Low taken.2) →
      allowed history s) :
    ∃ history s, (announcementMachine chainEnv (longLedger head confirmedHeight) subs).Run allowed
        history (s.handle chainEnv 0 0) ∧
      (s, .handle 0 0) ∈ history ∧ s.subscriptions = subs ∧ s.confirmed = [] ∧
      s.notices = [(longBlock head, confirmedHeight)] ∧
      s.store = confirmedStore (longStore head confirmedHeight) (longBlock head)
        (longInfo head confirmedHeight) := by
  have hunpruned := longStore_unpruned hhead (hconfirmed.imp_right Nat.le_of_lt)
  obtain ⟨t, hok, hstore⟩ := longConfirm_ok hhead (Nat.le_refl head) hconfirmed
  have hlt : head < 2 ^ 64 - 1 := hhead
  have hmem : longBlock head ∈ (longStore head confirmedHeight).blockSet :=
    (mem_longStore (by omega)).mpr ⟨head, Nat.le_refl _, rfl⟩
  have hclose : (longBlock head).height ≤ confirmedCount confirmedHeight + 1000 := by
    rwa [longBlock_height (by omega)]
  have hstep : (Announcements.ofLedger (longLedger head confirmedHeight) subs).take chainEnv
      (.confirm (longBlock head) StoreCall.never) =
      ⟨t.commit, subs, [(longBlock head, confirmedHeight)], [], []⟩ := by
    rw [Announcements.take, Announcements.confirm]
    rw [show (Announcements.ofLedger (longLedger head confirmedHeight) subs).ledger =
      longLedger head confirmedHeight from rfl, hok]
    rfl
  have hfirst := @Machine.Run.step _ _
    (announcementMachine chainEnv (longLedger head confirmedHeight) subs) allowed [] _
    (.confirm (longBlock head) StoreCall.never)
    (.start ⟨rfl, hunpruned⟩ (hallowed _ _ fun _ h => (by cases h)))
    ⟨hmem, confirmedHeight, t, hok, hclose⟩
    (hallowed _ _ fun taken htaken hlow => List.mem_singleton.mp htaken ▸ hlow)
  have hsecond := @Machine.Run.step _ _
    (announcementMachine chainEnv (longLedger head confirmedHeight) subs) allowed _ _
    (.handle 0 0) hfirst trivial
    (hallowed _ _ fun taken htaken hlow => by
      rcases List.mem_cons.mp htaken with rfl | htaken
      · trivial
      · exact List.mem_singleton.mp htaken ▸ hlow)
  refine ⟨_, _, hsecond, List.mem_cons_self, ?_⟩
  rw [show (announcementMachine chainEnv (longLedger head confirmedHeight) subs).step
    (.ofLedger (longLedger head confirmedHeight) subs)
    (.confirm (longBlock head) StoreCall.never) = _ from hstep]
  exact ⟨rfl, rfl, rfl, hstore⟩

theorem longRun_confirmedOf (s : Announcements) (block : Block) (hblock : block.account = 1)
    (hheight : block.height ≠ INVALID_HEIGHT) (hstore : s.store =
      confirmedStore (longStore head confirmedHeight) block (longInfo head confirmedHeight)) :
    s.store.confirmedOf 1 = block.height + 1 := by
  rw [hstore, Store.confirmedOf, confirmedStore, hblock, Table.get_put, if_pos rfl]
  exact if_neg hheight

def longSubscriptions : Subscriptions where
  subscriptions := Table.empty.put 1 0
  confirmRequests := .empty
  congestions := .empty

-- A chain of two blocks, the second of which pays a client that has subscribed.
theorem payment_told : ∃ history s,
    (announcementMachine chainEnv (longLedger 1 INVALID_HEIGHT) longSubscriptions).Run
      (fun history _ => ∀ taken ∈ history, Announcements.Low taken.2) history s ∧
    s.confirmed.count (longBlock 1) = 1 ∧ s.sent.countP (Callback.pays (longBlock 1)) = 1 := by
  have hlow : Announcements.Low (.confirm (longBlock 1) StoreCall.never) := by
    change (longBlock 1).height + 1000 < 2 ^ 64
    decide
  obtain ⟨history, s, hrun, htaken, hsubs, hnone, hnotices, hstore⟩ :=
    @longRun 1 INVALID_HEIGHT (by decide) (.inl rfl) (by decide) longSubscriptions
      (fun history _ => ∀ taken ∈ history, Announcements.Low taken.2)
      (fun history s h taken htaken => h taken htaken hlow)
  obtain ⟨⟨-, -, hall⟩, htold⟩ := confirmed_told_once hrun (longBlock 1)
  have hnotice : s.notices[0]? = some (longBlock 1, INVALID_HEIGHT) := by rw [hnotices]; rfl
  have hafter : (s.handle chainEnv 0 0).store = s.store ∧ (s.handle chainEnv 0 0).notices = [] := by
    rw [Announcements.handle, hnotices]
    exact ⟨rfl, rfl⟩
  have hblocks : longBlock 1 ∈
      Subscriptions.blocksOf s.store (longBlock 1) INVALID_HEIGHT := by
    rw [hstore]
    decide +kernel
  have hpayment : (s.subscriptions.tellsReceivable chainEnv s.store (longBlock 1)).isSome := by
    rw [hstore, hsubs]
    decide
  obtain ⟨-, hpays⟩ := htold _ htaken _ ⟨0, 0, rfl, hnotice, hblocks⟩
  refine ⟨history, _, hrun, hall hafter.2 ⟨?_, ?_, ?_⟩, ?_⟩
  · rw [hafter.1, hstore]
    exact (mem_longStore (by decide)).mpr ⟨1, Nat.le_refl _, rfl⟩
  · decide
  · rw [hafter.1]
    change _ < s.store.confirmedOf 1
    rw [longRun_confirmedOf s _ rfl (by decide) hstore]
    exact Nat.lt_succ_self _
  · rw [hpays]
    exact if_pos hpayment

-- Near the last heights `height + 1000` wraps around, and blocks that were confirmed long before
-- are told again.
theorem late_confirmation_told_again : ∃ history s b,
    (announcementMachine chainEnv (longLedger (2 ^ 64 - 999) (2 ^ 64 - 1001)) longSubscriptions).Run
      (fun _ _ => True) history s ∧
    b ∈ s.confirmed ∧ ¬s.BecameConfirmed (longLedger (2 ^ 64 - 999) (2 ^ 64 - 1001)) b := by
  generalize htop : 2 ^ 64 - 999 = top
  generalize hlast : 2 ^ 64 - 1001 = last
  have hhead : top < INVALID_HEIGHT := by
    unfold INVALID_HEIGHT
    omega
  have hlastNe : last ≠ INVALID_HEIGHT := by
    unfold INVALID_HEIGHT
    omega
  have hcount : confirmedCount last = last + 1 := if_neg hlastNe
  have htopHeight : (longBlock top).height = top := longBlock_height (by omega)
  have hbHeight : (longBlock (top - 1000)).height = top - 1000 := longBlock_height (by omega)
  obtain ⟨history, s, hrun, -, -, hnone, hnotices, hstore⟩ :=
    @longRun top last hhead (.inr (by omega)) (by omega) longSubscriptions (fun _ _ => True)
      (fun _ _ _ => trivial)
  have hunpruned : Unpruned chainEnv s.store := by
    rw [hstore]
    have htopMem : longBlock top ∈ (longStore top last).blockSet :=
      (mem_longStore (by omega)).mpr ⟨top, Nat.le_refl _, rfl⟩
    have hle : last ≤ top := by omega
    exact (longStore_unpruned hhead (.inr hle)).confirm htopMem longStore_account
  have hinfo : s.store.accountInfoGet 1 =
      some { longInfo top last with confirmedHeight := (longBlock top).height } := by
    rw [hstore, Store.accountInfoGet, confirmedStore, Table.get_put]
    exact if_pos rfl
  have hmember : LinkedChain.Member s.store 1 (longBlock (top - 1000)) := by
    have hin : longBlock (top - 1000) ∈ (longStore top last).blockSet :=
      (mem_longStore (by omega)).mpr ⟨top - 1000, by omega, rfl⟩
    rw [hstore]
    exact ⟨hin, rfl⟩
  obtain ⟨next, hfound, -⟩ := hunpruned.nextBlock_eq hinfo hmember
    (.inl ⟨rfl, by rw [hbHeight]; omega⟩)
  rw [hbHeight] at hfound
  have hwalk : Subscriptions.walkHeight (longBlock top) last = top - 1000 := by
    unfold Subscriptions.walkHeight sub64
    dsimp only
    rw [if_neg hlastNe, htopHeight, if_pos (by omega)]
    omega
  have hblocks : longBlock (top - 1000) ∈ Subscriptions.blocksOf s.store (longBlock top) last := by
    unfold Subscriptions.blocksOf
    rw [if_neg (by rw [htopHeight]; omega), if_neg (by rw [htopHeight]; omega),
      show (longBlock top).account = 1 from rfl, hinfo]
    dsimp only
    rw [hunpruned.valid 1 _ hinfo, if_neg (by decide), if_neg (by rw [htopHeight]; omega), hwalk,
      htopHeight, show top + 1 - (top - 1000) = 1000 + 1 by omega, Subscriptions.successorWalk,
      if_neg (by omega), hfound]
    dsimp only
    split
    · exact List.mem_singleton_self _
    · exact List.mem_cons_self
  refine ⟨history, _, longBlock (top - 1000), hrun, ?_, ?_⟩
  · rw [Announcements.handle, hnotices]
    exact List.mem_append_right _ hblocks
  · rintro ⟨-, hle, -⟩
    have hold : (longLedger top last).store.confirmedOf 1 = last + 1 := by
      rw [← hcount]
      exact Store.confirmedOf_eq longStore_account
    change (longLedger top last).store.confirmedOf 1 ≤ _ at hle
    rw [hold, hbHeight] at hle
    omega

end LongChain

end Raicoin
