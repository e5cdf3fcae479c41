import Raicoin.Properties.Orders
import Raicoin.Token.App

-- Blocks that wait are held where what they wait for will find them.
namespace Raicoin

open Lib

section Heads

variable {base : Env} {kind : ChangeKind} {l l' : TokenLedger}

theorem TokenChange.chainHeads (h : TokenChange base kind l l') (hne : kind ≠ .headed) :
    l'.chainHeads = l.chainHeads := by
  cases h with
  | noted => rfl
  | operated _ _ _ _ hoperated => cases hoperated <;> rfl
  | inquiryNacked => rfl
  | takeNacked => rfl
  | event => exact applied_chainHeads
  | headed => exact absurd rfl hne
  | native => rfl

-- A block that is taken leaves the heads of the foreign chains where they are.
theorem afterBlockAppend_chainHeads {env : TokenEnv} {block : Block} {content : TokenContent}
    {confirmed : Bool} {s : TokenSession} (hheight : block.height ≠ INVALID_HEIGHT)
    (h : afterBlockAppend env block content confirmed (.init l) = .ok () s) :
    s.ledger.chainHeads = l.chainHeads := by
  obtain ⟨l₁, l₂, happended⟩ := afterBlockAppend_turns ⟨.init l, s, h, rfl, rfl⟩
  have hchanges : TokenChanges env.toEnv (· ≠ .headed) l s.ledger :=
    happended.changes rfl hheight fun _ _ hne => hne
  have hkept (kind : ChangeKind) (l₁ l₂ : TokenLedger) (hne : kind ≠ .headed)
      (hsame : l₁.chainHeads = l.chainHeads) (hchange : TokenChange env.toEnv kind l₁ l₂) :
      l₂.chainHeads = l.chainHeads :=
    (hchange.chainHeads hne).trans hsame
  exact hchanges.keep hkept rfl

end Heads

-- The chain and the height that a block waits for on a foreign chain, whatever the ledger is.
def TokenContent.foreign : TokenContent → Option (Chain × Nat)
  | .operation (.receive receive) _ =>
    if receive.source = .map then some (receive.token.chain, receive.blockHeight)
    else if receive.source = .unwrap then some (receive.unwrapChain, receive.blockHeight)
    else Option.none
  | _ => Option.none

theorem swapObstacles_ne_chain {block : Block} {l : TokenLedger} {swap : ExtensionTokenSwap}
    {chain : Chain} {height : Nat} : Obstacle.chain chain height ∉ swapObstacles block l swap := by
  cases swap with
  | inquiry data =>
      rw [swapObstacles, inquiryObstacles]
      split_ifs
      · exact List.not_mem_nil
      · rw [List.mem_cons, not_or]
        refine ⟨by simp, ?_⟩
        split
        · exact List.not_mem_nil
        · split_ifs <;> simp
  | inquiryAck data =>
      rw [swapObstacles, inquiryAckObstacles]
      split_ifs
      · exact List.not_mem_nil
      · rw [List.mem_cons, not_or]
        refine ⟨by simp, ?_⟩
        split <;> simp
  | take inquiryHeight =>
      rw [swapObstacles, takeObstacles]
      split_ifs
      · exact List.not_mem_nil
      · split
        · exact List.not_mem_nil
        · rw [List.mem_cons, not_or]
          refine ⟨by simp, ?_⟩
          split_ifs <;> simp
  | takeAck data =>
      rw [swapObstacles, takeAckObstacles]
      split_ifs <;> simp
  | takeNack taker inquiryHeight =>
      rw [swapObstacles, takeNackObstacles]
      split_ifs
      · exact List.not_mem_nil
      · rw [List.mem_cons, not_or]
        refine ⟨by simp, ?_⟩
        split <;> simp
  | config main => exact List.not_mem_nil
  | make data => exact List.not_mem_nil
  | cancel height => exact List.not_mem_nil
  | ping maker => exact List.not_mem_nil
  | pong => exact List.not_mem_nil

theorem foreign_of_mem {block : Block} {l : TokenLedger} {content : TokenContent} {chain : Chain}
    {height : Nat} (h : Obstacle.chain chain height ∈ contentObstacles block l content) :
    content.foreign = some (chain, height) := by
  cases content with
  | none => cases h
  | many => cases h
  | broken code => cases h
  | operation token checked =>
      cases token with
      | receive receive =>
          simp only [contentObstacles, operationObstacles, receiveObstacles] at h
          cases hsource : receive.source <;> simp_all [IsLocalSource, TokenContent.foreign]
      | swap swap => exact absurd h swapObstacles_ne_chain
      | create data => cases h
      | mint data => cases h
      | burn data => cases h
      | send data => cases h
      | unmap data => cases h
      | wrap data => cases h

section Queues

variable {env : Env} {content : Block → TokenContent}

theorem BlockWaiting.mem_insert {entry e : BlockWaitingEntry} {entries : List BlockWaitingEntry}
    (h : e ∈ BlockWaiting.insert env entry entries) :
    e = entry ∨ ∃ data ∈ entries, e.for_ = data.for_ ∧ e.existing = data.existing := by
  unfold BlockWaiting.insert at h
  split_ifs at h with hany
  · obtain ⟨data, hdata, rfl⟩ := List.mem_map.mp h
    refine .inr ⟨data, hdata, ?_⟩
    split_ifs <;> exact ⟨rfl, rfl⟩
  · rcases List.mem_append.mp h with h | h
    · exact .inr ⟨e, h, rfl, rfl⟩
    · exact .inl (List.mem_singleton.mp h)

theorem BlockWaiting.insert_holds {entry data : BlockWaitingEntry}
    {entries : List BlockWaitingEntry} (h : data ∈ entries) :
    ∃ e ∈ BlockWaiting.insert env entry entries, env.hash e.block = env.hash data.block := by
  unfold BlockWaiting.insert
  split_ifs with hany
  · refine ⟨_, List.mem_map_of_mem h, ?_⟩
    split_ifs <;> rfl
  · exact ⟨data, List.mem_append_left _ h, rfl⟩

theorem BlockWaiting.insert_new {entry : BlockWaitingEntry} {entries : List BlockWaitingEntry} :
    ∃ e ∈ BlockWaiting.insert env entry entries, env.hash e.block = env.hash entry.block := by
  by_cases hany : entries.any fun data => env.hash data.block = env.hash entry.block
  · obtain ⟨data, hdata, hsame⟩ := List.any_eq_true.mp hany
    obtain ⟨e, he, hhash⟩ := @insert_holds env entry data entries hdata
    exact ⟨e, he, hhash.trans (of_decide_eq_true hsame)⟩
  · unfold BlockWaiting.insert
    rw [if_neg hany]
    exact ⟨entry, List.mem_append_right _ (List.mem_singleton_self _), rfl⟩

theorem ChainWaiting.mem_insert {entry e : ChainWaitingEntry} {entries : List ChainWaitingEntry}
    (h : e ∈ ChainWaiting.insert env entry entries) : e = entry ∨ e ∈ entries := by
  unfold ChainWaiting.insert at h
  split_ifs at h
  · exact .inr h
  · exact (List.mem_append.mp h).symm.imp_left List.mem_singleton.mp

theorem ChainWaiting.subset_insert {entry e : ChainWaitingEntry} {entries : List ChainWaitingEntry}
    (h : e ∈ entries) : e ∈ ChainWaiting.insert env entry entries := by
  unfold ChainWaiting.insert
  split_ifs
  · exact h
  · exact List.mem_append_left _ h

theorem ChainWaiting.insert_new {entry : ChainWaitingEntry} {entries : List ChainWaitingEntry} :
    ∃ e ∈ ChainWaiting.insert env entry entries, env.hash e.block = env.hash entry.block := by
  unfold ChainWaiting.insert
  split_ifs with hany
  · obtain ⟨data, hdata, hsame⟩ := List.any_eq_true.mp hany
    exact ⟨data, hdata, of_decide_eq_true hsame⟩
  · exact ⟨entry, List.mem_append_right _ (List.mem_singleton_self _), rfl⟩

end Queues

section Waits

variable {env : Env} {blocks : Set Block} {chains : Account → List Block} {store : Store}
  {account : Account} {height : Nat}

-- What `WaitBlock` waits for is not confirmed.
theorem waitBlock_waiting (happart : Apart env blocks) (h : ShowsChains env blocks store chains)
    (hwaiting : waitBlock store account height = .error .APP_PROCESS_WAITING) :
    ¬ConfirmedAt store account height := by
  rintro ⟨info, hget, hconfirmed⟩
  obtain ⟨hle, -⟩ := h.confirmed_le happart hget hconfirmed
  have hvalid := h.valid happart hget
  simp [waitBlock, Except.bind_eq_error, hget, hvalid, hconfirmed, Nat.not_lt.mpr hle, pure,
    Except.pure] at hwaiting

-- What `WaitBlockIfExist` waits for is there besides.
theorem waitBlockIfExist_waiting
    (hwaiting : waitBlockIfExist store account height = .error .APP_PROCESS_WAITING) :
    ∃ info, store.accountInfoGet account = some info ∧ info.valid = true ∧
      height ≤ info.headHeight ∧ info.confirmed height = false := by
  unfold waitBlockIfExist at hwaiting
  cases hget : store.accountInfoGet account with
  | none =>
      rw [hget] at hwaiting
      cases hwaiting
  | some info =>
      rw [hget] at hwaiting
      dsimp only at hwaiting
      by_cases hmiss : info.valid = false ∨ height > info.headHeight
      · rw [if_pos hmiss] at hwaiting
        cases hwaiting
      · rw [if_neg hmiss] at hwaiting
        rw [not_or, Bool.not_eq_false] at hmiss
        simp only [Except.bind_eq_error, returnIf_eq_error, orReturn_eq_error, reduceCtorEq,
          and_false, false_or, and_true, pure, Except.pure, exists_false, or_false] at hwaiting
        obtain ⟨_, -, _, -, hwaiting⟩ := hwaiting
        exact ⟨info, rfl, hmiss.1, by omega, hwaiting⟩

-- What is true of the call that a handler ends with, before its block was in its chain.
def Obstacle.Stands (content : TokenContent) (chains : Account → List Block) (s : App TokenLedger) :
    Obstacle → Prop
  | .block account height => ¬ConfirmedAt s.store account height
  | .existing account height =>
    ¬ConfirmedAt s.store account height ∧ height < (chains account).length
  | .chain followed height =>
    (∀ head, s.ledger.chainHeads.get followed = some head → head.toNat < height) ∧
      content.foreign = some (followed, height)

variable {content : Block → TokenContent} {fails : StoreCall → Bool} {refused : TokenCall → Bool}
  {s : App TokenLedger} {b : Block} {confirmed : Bool} {obstacle : Obstacle}

theorem waiting_stands (happart : Apart env blocks) (h : ShowsChains env blocks s.store chains)
    (hb : b ∈ blocks)
    (hwaiting : TokenApp.waiting env content fails refused s b confirmed = some obstacle) :
    obstacle.Stands (content b) chains s := by
  rw [TokenApp.waiting, Option.join_eq_some_iff] at hwaiting
  obtain ⟨store, hentered, hwaited⟩ := App.watched_eq_some hwaiting
  have hstore := h.entered happart hb hentered
  rw [waitedFor] at hwaited
  split_ifs at hwaited with hreturn
  rw [not_or, Bool.not_eq_false] at hreturn
  obtain ⟨hmem, hcheck⟩ := firstWaited_spec hwaited.symm
  cases obstacle with
  | block account height =>
      exact fun hold => waitBlock_waiting happart hstore (block_check_waiting.mp hcheck)
        (h.confirmedAt_entered happart hb hentered hold)
  | existing account height =>
      obtain ⟨info, hget, hvalid, hle, hopen⟩ :=
        waitBlockIfExist_waiting (existing_check_waiting.mp hcheck)
      have hnot : ¬ConfirmedAt store account height := by
        rintro ⟨info', hget', hconfirmed⟩
        cases hget'.symm.trans hget
        rw [hopen] at hconfirmed
        cases hconfirmed
      refine ⟨fun hold => hnot (h.confirmedAt_entered happart hb hentered hold), ?_⟩
      -- The block's own account has nothing unconfirmed left.
      have hother : account ≠ b.account := by
        rintro rfl
        obtain ⟨info', hget', hhead, hset, -⟩ := hentered.info_own
        cases hget'.symm.trans hget
        refine hnot ⟨info, hget, (confirmed_iff hvalid).mpr ?_⟩
        rw [hset hreturn.1]
        exact ⟨happart.height_ne b hb, by omega⟩
      rw [hentered.info_other hother] at hget
      obtain ⟨p, rest, hchain⟩ := h.chain_of_info hget
      obtain ⟨info', hsame, -, -, hlength, -⟩ := h.info_of_head happart hchain
      cases hsame.symm.trans hget
      rw [hchain, List.length_cons]
      omega
  | chain chain height => exact ⟨chain_check_waiting.mp hcheck, foreign_of_mem hmem⟩

end Waits

-- The call that a block waits in has put it where it belongs, or found it held already.
def TokenApp.Holds (env : Env) (s : TokenApp) (hash : BlockHash) : Obstacle → Prop
  | .block _ _ => ∃ entry ∈ s.blockWaiting, env.hash entry.block = hash
  | .existing _ _ => ∃ entry ∈ s.blockWaiting, env.hash entry.block = hash
  | .chain followed height => ∃ entry ∈ s.chainWaiting, env.hash entry.block = hash ∧
      entry.chain = followed ∧ entry.height = height

-- What a step keeps, but for what is confirmed and reached.
structure TokenApp.Kept (env : Env) (content : Block → TokenContent) (blocks : Set Block)
    (chains : Account → List Block) (s : TokenApp) : Prop where
  shows : ShowsChains env blocks s.app.store chains
  existing : ∀ entry ∈ s.blockWaiting, entry.existing = true →
    entry.for_.2 < (chains entry.for_.1).length
  foreign : ∀ entry ∈ s.chainWaiting, entry.block ∈ blocks ∧
    (content entry.block).foreign = some (entry.chain, entry.height)
  held : ∀ hash obstacle, s.waits.get hash = some (some obstacle) → s.Holds env hash obstacle
  unknown : ∀ hash, s.waits.get hash = some none →
    ∃ b ∈ blocks, env.hash b = hash ∧ WrapsUnknown (content b)

def TokenApp.Unconfirmed (s : TokenApp) : Prop :=
  ∀ entry ∈ s.blockWaiting, ¬ConfirmedAt s.app.store entry.for_.1 entry.for_.2

def TokenApp.Unreached (s : TokenApp) : Prop :=
  ∀ entry ∈ s.chainWaiting, ∀ head, s.app.ledger.chainHeads.get entry.chain = some head →
    head.toNat < entry.height

section Steps

variable {env : Env} {content : Block → TokenContent} {blocks : Set Block}
  {chains : Account → List Block} {s : TokenApp} {b : Block} {obstacle : Obstacle}
  {hash : BlockHash}

theorem TokenApp.record_app (o : Option Obstacle) : (s.record env b o).app = s.app := by
  cases o with
  | none => rfl
  | some obstacle => cases obstacle <;> rfl

theorem TokenApp.record_waits (o : Option Obstacle) : (s.record env b o).waits = s.waits := by
  cases o with
  | none => rfl
  | some obstacle => cases obstacle <;> rfl

-- A record takes nothing out of the queues.
theorem TokenApp.record_holds (o : Option Obstacle) (h : s.Holds env hash obstacle) :
    (s.record env b o).Holds env hash obstacle := by
  have hblock (h : ∃ entry ∈ s.blockWaiting, env.hash entry.block = hash) :
      ∃ entry ∈ (s.record env b o).blockWaiting, env.hash entry.block = hash := by
    obtain ⟨data, hdata, hhash⟩ := h
    rcases o with _ | ⟨account, height⟩ | ⟨account, height⟩ | ⟨chain, height⟩
    · exact ⟨data, hdata, hhash⟩
    · obtain ⟨e, he, hsame⟩ := @BlockWaiting.insert_holds env ⟨(account, height), b, true, false⟩ _ _ hdata
      exact ⟨e, he, hsame.trans hhash⟩
    · obtain ⟨e, he, hsame⟩ := @BlockWaiting.insert_holds env ⟨(account, height), b, true, true⟩ _ _ hdata
      exact ⟨e, he, hsame.trans hhash⟩
    · exact ⟨data, hdata, hhash⟩
  cases obstacle with
  | block account height => exact hblock h
  | existing account height => exact hblock h
  | chain followed height =>
      obtain ⟨data, hdata, hrest⟩ := h
      rcases o with _ | ⟨account, height⟩ | ⟨account, height⟩ | ⟨chain, height⟩
      · exact ⟨data, hdata, hrest⟩
      · exact ⟨data, hdata, hrest⟩
      · exact ⟨data, hdata, hrest⟩
      · exact ⟨data, ChainWaiting.subset_insert hdata, hrest⟩

-- What is waited for is recorded.
theorem TokenApp.record_kept (h : s.Kept env content blocks chains) (hopen : s.Unconfirmed)
    (hfar : s.Unreached) (hb : b ∈ blocks) {o : Option Obstacle}
    (hstands : ∀ obstacle, o = some obstacle → obstacle.Stands (content b) chains s.app) :
    (s.record env b o).Kept env content blocks chains ∧ (s.record env b o).Unconfirmed ∧
      (s.record env b o).Unreached := by
  have hheld : ∀ hash obstacle, (s.record env b o).waits.get hash = some (some obstacle) →
      (s.record env b o).Holds env hash obstacle := by
    intro hash obstacle hget
    rw [record_waits] at hget
    exact record_holds o (h.held hash obstacle hget)
  have hunknown : ∀ hash, (s.record env b o).waits.get hash = some none →
      ∃ b ∈ blocks, env.hash b = hash ∧ WrapsUnknown (content b) := by
    intro hash hget
    rw [record_waits] at hget
    exact h.unknown hash hget
  rcases o with _ | ⟨account, height⟩ | ⟨account, height⟩ | ⟨chain, height⟩
  · exact ⟨h, hopen, hfar⟩
  · have hnew := hstands _ rfl
    refine ⟨⟨h.shows, fun e he hexisting => ?_, h.foreign, hheld, hunknown⟩, fun e he => ?_, hfar⟩
    · rcases BlockWaiting.mem_insert he with rfl | ⟨data, hdata, hfor, hsame⟩
      · cases hexisting
      · rw [hfor]
        exact h.existing data hdata (hsame ▸ hexisting)
    · rcases BlockWaiting.mem_insert he with rfl | ⟨data, hdata, hfor, -⟩
      · exact hnew
      · rw [hfor]
        exact hopen data hdata
  · obtain ⟨hnew, hlow⟩ := hstands _ rfl
    refine ⟨⟨h.shows, fun e he hexisting => ?_, h.foreign, hheld, hunknown⟩, fun e he => ?_, hfar⟩
    · rcases BlockWaiting.mem_insert he with rfl | ⟨data, hdata, hfor, hsame⟩
      · exact hlow
      · rw [hfor]
        exact h.existing data hdata (hsame ▸ hexisting)
    · rcases BlockWaiting.mem_insert he with rfl | ⟨data, hdata, hfor, -⟩
      · exact hnew
      · rw [hfor]
        exact hopen data hdata
  · obtain ⟨hnew, hforeign⟩ := hstands _ rfl
    refine ⟨⟨h.shows, h.existing, fun e he => ?_, hheld, hunknown⟩, hopen, fun e he => ?_⟩
    · rcases ChainWaiting.mem_insert he with rfl | he
      · exact ⟨hb, hforeign⟩
      · exact h.foreign e he
    · rcases ChainWaiting.mem_insert he with rfl | he
      · exact hnew
      · exact hfar e he

-- And its block is held.
theorem TokenApp.record_new (happart : Apart env blocks) (h : s.Kept env content blocks chains)
    (hb : b ∈ blocks) (hstands : obstacle.Stands (content b) chains s.app) :
    (s.record env b (some obstacle)).Holds env (env.hash b) obstacle := by
  cases obstacle with
  | block account height => exact BlockWaiting.insert_new
  | existing account height => exact BlockWaiting.insert_new
  | chain followed height =>
      obtain ⟨e, he, hhash⟩ := @ChainWaiting.insert_new env ⟨followed, height, b⟩ s.chainWaiting
      obtain ⟨-, hforeign⟩ := hstands
      have hsame : e.block = b ∧ (content e.block).foreign = some (e.chain, e.height) := by
        rcases ChainWaiting.mem_insert he with rfl | hold
        · exact ⟨rfl, hforeign⟩
        · obtain ⟨hmem, hold⟩ := h.foreign e hold
          exact ⟨happart.injective hmem hb hhash, hold⟩
      rw [hsame.1, hforeign] at hsame
      cases hsame.2
      exact ⟨e, he, hhash, rfl, rfl⟩

theorem TokenApp.Kept.forget (h : s.Kept env content blocks chains) (hash : BlockHash) :
    { s with waits := s.waits.del hash : TokenApp }.Kept env content blocks chains := by
  refine ⟨h.shows, h.existing, h.foreign, fun other obstacle hget => ?_, fun other hget => ?_⟩
  · change (s.waits.del hash).get other = _ at hget
    rw [Table.get_del] at hget
    split_ifs at hget
    have hheld := h.held other obstacle hget
    cases obstacle <;> exact hheld
  · change (s.waits.del hash).get other = _ at hget
    rw [Table.get_del] at hget
    split_ifs at hget
    exact h.unknown other hget

theorem TokenApp.Kept.remember (h : s.Kept env content blocks chains) (hash : BlockHash)
    {o : Option Obstacle} (hnew : ∀ obstacle, o = some obstacle → s.Holds env hash obstacle)
    (hnone : o = none → ∃ b ∈ blocks, env.hash b = hash ∧ WrapsUnknown (content b)) :
    { s with waits := s.waits.put hash o : TokenApp }.Kept env content blocks chains := by
  refine ⟨h.shows, h.existing, h.foreign, fun other obstacle hget => ?_, fun other hget => ?_⟩
  · change (s.waits.put hash o).get other = _ at hget
    have hheld : s.Holds env other obstacle := by
      rw [Table.get_put] at hget
      split_ifs at hget with hsame
      · rw [hsame]
        exact hnew obstacle (Option.some.inj hget)
      · exact h.held other obstacle hget
    cases obstacle <;> exact hheld
  · change (s.waits.put hash o).get other = _ at hget
    rw [Table.get_put] at hget
    split_ifs at hget with hsame
    · rw [hsame]
      exact hnone (Option.some.inj hget)
    · exact h.unknown other hget

theorem TokenApp.queueWaitings_kept (h : s.Kept env content blocks chains) (account : Account)
    (height : Nat) : (s.queueWaitings env account height).Kept env content blocks chains := by
  refine ⟨h.shows, fun e he => h.existing e (List.mem_of_mem_filter he), h.foreign,
    fun hash obstacle hget => ?_, fun hash hget => ?_⟩
  all_goals
    change (s.waits.filter _).get hash = _ at hget
    rw [Table.get_filter] at hget
    obtain ⟨hget, hleft⟩ := Option.filter_eq_some_iff.mp hget
  · have hheld := h.held hash obstacle hget
    have hblock (hheld : ∃ e ∈ s.blockWaiting, env.hash e.block = hash) :
        ∃ e ∈ (s.queueWaitings env account height).blockWaiting, env.hash e.block = hash := by
      obtain ⟨e, he, hhash⟩ := hheld
      refine ⟨e, List.mem_filter.mpr ⟨he, ?_⟩, hhash⟩
      by_contra hcovers
      rw [Bool.not_eq_true, Bool.not_eq_false'] at hcovers
      rw [Bool.not_eq_true', List.contains_eq_mem, decide_eq_false_iff_not] at hleft
      exact hleft (hhash ▸ List.mem_map_of_mem (List.mem_filter.mpr ⟨he, hcovers⟩))
    cases obstacle with
    | block account height => exact hblock hheld
    | existing account height => exact hblock hheld
    | chain followed height => exact hheld
  · exact h.unknown hash hget

theorem TokenApp.queueCrossChain_kept (h : s.Kept env content blocks chains) (followed : Chain)
    (height : Nat) :
    (s.queueCrossChainWaitingBlocks_ env followed height).Kept env content blocks chains := by
  refine ⟨h.shows, h.existing, fun e he => h.foreign e (List.mem_of_mem_filter he),
    fun hash obstacle hget => ?_, fun hash hget => ?_⟩
  all_goals
    change (s.waits.filter _).get hash = _ at hget
    rw [Table.get_filter] at hget
    obtain ⟨hget, hleft⟩ := Option.filter_eq_some_iff.mp hget
  · have hheld := h.held hash obstacle hget
    cases obstacle with
    | block account height => exact hheld
    | existing account height => exact hheld
    | chain other height =>
        obtain ⟨e, he, hhash, hrest⟩ := hheld
        refine ⟨e, List.mem_filter.mpr ⟨he, ?_⟩, hhash, hrest⟩
        by_contra hcovers
        rw [Bool.not_eq_true, Bool.not_eq_false'] at hcovers
        rw [Bool.not_eq_true', List.contains_eq_mem, decide_eq_false_iff_not] at hleft
        exact hleft (hhash ▸ List.mem_map_of_mem (List.mem_filter.mpr ⟨he, hcovers⟩))
  · exact h.unknown hash hget

-- The invariant of the runs.
def TokenApp.Inv (env : Env) (content : Block → TokenContent) (blocks : Set Block) (s : TokenApp) :
    Prop :=
  ∃ chains, s.Kept env content blocks chains ∧ s.Unconfirmed ∧ s.Unreached

-- A block that confirms positions queues what waits for them.
theorem TokenApp.queueWaitings_inv (h : s.Kept env content blocks chains) (hfar : s.Unreached)
    {account : Account} {height : Nat} (hopen : ∀ e ∈ s.blockWaiting,
      ConfirmedAt s.app.store e.for_.1 e.for_.2 → e.for_.1 = account ∧ e.for_.2 ≤ height) :
    (s.queueWaitings env account height).Inv env content blocks := by
  refine ⟨chains, queueWaitings_kept h account height, fun e he hconfirmed => ?_, hfar⟩
  obtain ⟨he, hcovers⟩ := List.mem_filter.mp he
  have hcovered := hopen e he hconfirmed
  simp [BlockWaiting.covers, hcovered] at hcovers

theorem TokenApp.queueCrossChain_inv (h : s.Kept env content blocks chains) (hopen : s.Unconfirmed)
    {followed : Chain} {height : Nat} (hfar : ∀ e ∈ s.chainWaiting, ∀ head,
      s.app.ledger.chainHeads.get e.chain = some head →
        head.toNat < e.height ∨ e.chain = followed ∧ head.toNat = height) :
    (s.queueCrossChainWaitingBlocks_ env followed height).Inv env content blocks := by
  refine ⟨chains, queueCrossChain_kept h followed height, hopen, fun e he head hget => ?_⟩
  obtain ⟨he, hcovers⟩ := List.mem_filter.mp he
  rcases hfar e he head hget with hlt | ⟨hchain, hhead⟩
  · exact hlt
  · rw [hhead]
    simpa [ChainWaiting.covers, hchain] using hcovers

-- The blocks of a step that is taken are in longer chains, or in the same ones.
theorem TokenApp.Kept.moved (h : s.Kept env content blocks chains) {chains' : Account → List Block}
    {app : App TokenLedger} (hshows : ShowsChains env blocks app.store chains')
    (hlonger : ∀ entry ∈ s.blockWaiting, entry.existing = true →
      entry.for_.2 < (chains entry.for_.1).length → entry.for_.2 < (chains' entry.for_.1).length) :
    { s with app : TokenApp }.Kept env content blocks chains' := by
  refine ⟨hshows, fun e he hexisting => hlonger e he hexisting (h.existing e he hexisting),
    h.foreign, fun hash obstacle hget => ?_, h.unknown⟩
  have hheld := h.held hash obstacle hget
  cases obstacle <;> exact hheld

variable {fails : StoreCall → Bool} {refused : TokenCall → Bool} {confirmed : Bool}

theorem tokenHooks_after {app : Store} {l l' : TokenLedger} (hheight : b.height ≠ INVALID_HEIGHT)
    (h : (tokenHooks env content).afterBlockAppend refused app b confirmed l = .ok l') :
    l'.chainHeads = l.chainHeads := by
  unfold tokenHooks at h
  dsimp only at h
  split at h
  · rename_i s hrun
    cases h
    exact afterBlockAppend_chainHeads hheight hrun
  · cases h

theorem tokenHooks_waiting {app : Store} {l : TokenLedger}
    (h : (tokenHooks env content).afterBlockAppend refused app b confirmed l =
      .error .APP_PROCESS_WAITING) :
    (waitedFor ⟨env, app, refused⟩ b (content b) confirmed l).isSome ∨ WrapsUnknown (content b) := by
  unfold tokenHooks at h
  dsimp only at h
  split at h
  · cases h
  · rename_i code s hrun
    cases h
    exact afterBlockAppend_waiting hrun

theorem tokenHooks_pre {l : TokenLedger} :
    (tokenHooks env content).preBlockAppend b confirmed l ≠ .error .APP_PROCESS_WAITING := by
  change preBlockAppend b (content b) confirmed l ≠ _
  unfold preBlockAppend
  split_ifs
  · simp
  · simp [Except.bind_eq_error]

-- A block that has to wait waits for something, or wraps to a chain that is not known.
theorem appendBlock_waits
    (h : s.app.appendBlock_ env (tokenHooks env content) fails refused b confirmed =
      .error .APP_PROCESS_WAITING) :
    (TokenApp.waiting env content fails refused s.app b confirmed).isSome ∨
      WrapsUnknown (content b) := by
  obtain ⟨store, hafter, hwatched⟩ := App.appendBlock_waiting tokenHooks_pre h
  rw [TokenApp.waiting, hwatched]
  exact tokenHooks_waiting hafter

theorem processBlock_inv (happart : Apart env blocks) (h : s.Inv env content blocks)
    (hb : b ∈ blocks) :
    (s.processBlock env content fails refused b confirmed).Inv env content blocks := by
  unfold TokenApp.processBlock
  by_cases hskipped : b.type ∉ (tokenHooks env content).accountTypes ∨
      confirmed = false ∧ BlockWaiting.exists_ s.blockWaiting b.account b.height
  · rw [if_pos hskipped]
    exact h
  rw [if_neg hskipped]
  obtain ⟨chains, hkept, hopen, hfar⟩ := h
  obtain ⟨o, ho⟩ : ∃ o, TokenApp.waiting env content fails refused s.app b confirmed = o := ⟨_, rfl⟩
  have hstands : ∀ obstacle, o = some obstacle → obstacle.Stands (content b) chains s.app :=
    fun obstacle hsome => waiting_stands happart hkept.shows hb (ho.trans hsome)
  obtain ⟨hkept', hopen', hfar'⟩ := TokenApp.record_kept hkept hopen hfar hb hstands
  have happ := @TokenApp.record_app env s b o
  dsimp only
  rw [ho]
  cases hcode : s.app.appendBlock_ env (tokenHooks env content) fails refused b confirmed with
  | ok app =>
      dsimp only
      -- The chains afterwards, and what has become confirmed.
      obtain ⟨chains', hshows, hlonger, hheads, hnew⟩ : ∃ chains',
          ShowsChains env blocks app.store chains' ∧
          (∀ account, (chains account).length ≤ (chains' account).length) ∧
          app.ledger.chainHeads = s.app.ledger.chainHeads ∧
          ∀ account height, ConfirmedAt app.store account height →
            ConfirmedAt s.app.store account height ∨
              confirmed = true ∧ account = b.account ∧ height ≤ b.height := by
        rcases App.appendBlock_ok hcode with
          ⟨hentered, -, hafter⟩ | ⟨hof, ⟨info, hsettled, -⟩, hledger⟩
        · refine ⟨_, hkept.shows.entered happart hb hentered, fun account => ?_,
            tokenHooks_after (happart.height_ne b hb) hafter, fun account height hnow =>
              hkept.shows.confirmedAt_of_entered happart hb hentered hnow⟩
          by_cases hne : account = b.account
          · rw [hne, Function.update_self, List.length_cons]
            exact Nat.le_succ _
          · rw [Function.update_of_ne hne]
        · refine ⟨chains, hkept.shows.settled hsettled, fun _ => Nat.le_refl _, by rw [hledger],
            fun account height hnow => ?_⟩
          exact (hsettled.confirmedAt happart hkept.shows hnow).imp_right fun hown => ⟨hof, hown⟩
      have hnext := (hkept'.forget (env.hash b)).moved hshows fun e _ _ hlt =>
        Nat.lt_of_lt_of_le hlt (hlonger _)
      have hreached : ∀ e ∈ (s.record env b o).chainWaiting, ∀ head,
          app.ledger.chainHeads.get e.chain = some head → head.toNat < e.height := by
        intro e he head hget
        rw [hheads, ← happ] at hget
        exact hfar' e he head hget
      have hconfirmed : ∀ e ∈ (s.record env b o).blockWaiting,
          ConfirmedAt app.store e.for_.1 e.for_.2 →
            confirmed = true ∧ e.for_.1 = b.account ∧ e.for_.2 ≤ b.height := by
        intro e he hnow
        refine (hnew _ _ hnow).resolve_left fun hold => hopen' e he ?_
        rw [happ]
        exact hold
      split_ifs with hof
      · exact TokenApp.queueWaitings_inv hnext hreached fun e he hnow => (hconfirmed e he hnow).2
      · exact ⟨chains', hnext, fun e he hnow => hof (hconfirmed e he hnow).1, hreached⟩
  | error code =>
      dsimp only
      split_ifs with hsettled hwaiting
      · refine TokenApp.queueWaitings_inv (hkept'.forget _) hfar' fun e he hnow => ?_
        exact absurd hnow (hopen' e he)
      · refine ⟨chains, hkept'.remember _ (fun obstacle hsome => ?_) fun hnone => ?_, hopen', hfar'⟩
        · rw [hsome]
          exact TokenApp.record_new happart hkept hb (hstands obstacle hsome)
        · rw [hwaiting] at hcode
          refine ⟨b, hb, rfl, (appendBlock_waits hcode).resolve_left ?_⟩
          rw [ho, hnone]
          exact Bool.false_ne_true
      · exact ⟨chains, hkept'.forget _, hopen', hfar'⟩

-- A rollback is as it should be if nothing that waits waits for the block to be confirmed.
theorem processBlockRollback_inv (happart : Apart env blocks) (h : s.Inv env content blocks)
    (hb : b ∈ blocks) (hspares : ∀ entry ∈ s.blockWaiting, entry.existing = true →
      entry.for_ = (b.account, b.height) →
        ∀ info, s.app.store.accountInfoGet b.account = some info → info.head ≠ env.hash b) :
    (s.processBlockRollback env content fails b).Inv env content blocks := by
  obtain ⟨chains, hkept, hopen, hfar⟩ := h
  unfold TokenApp.processBlockRollback App.processBlockRollback
  by_cases htype : b.type ∉ (tokenHooks env content).accountTypes
  · rw [if_pos htype]
    exact ⟨chains, hkept, hopen, hfar⟩
  rw [if_neg htype]
  cases hcode : s.app.rollbackBlock_ env (tokenHooks env content) fails b with
  | error code => exact ⟨chains, hkept, hopen, hfar⟩
  | ok app =>
      obtain ⟨rest, hrolled⟩ := rollbackBlock_rolledBack happart hkept.shows hb hcode
      obtain ⟨info, hinfo, -, hhead, -⟩ := hkept.shows.info_of_head happart hrolled.chain
      refine ⟨_, hkept.moved hrolled.shows fun e he hexisting hlt => ?_, fun e he hnow => ?_, ?_⟩
      · by_cases hne : e.for_.1 = b.account
        · have hother : e.for_.2 ≠ b.height := fun hheight =>
            hspares e he hexisting (Prod.ext hne hheight) info hinfo hhead
          have hheight := hkept.shows.height_eq hrolled.chain
          rw [hne, hrolled.chain, List.length_cons] at hlt
          rw [hne, Function.update_self]
          omega
        · rw [Function.update_of_ne hne]
          exact hlt
      · exact hopen e he ((hrolled.confirmed _ _).mp hnow)
      · intro e he head hget
        change app.ledger.chainHeads.get e.chain = some head at hget
        rw [hrolled.ledger] at hget
        exact hfar e he head hget

-- The chains go on, whatever waits.
theorem processBlockRollback_shows (happart : Apart env blocks) (h : s.Inv env content blocks)
    (hb : b ∈ blocks) : ∃ chains,
      ShowsChains env blocks (s.processBlockRollback env content fails b).app.store chains := by
  obtain ⟨chains, hkept, -, -⟩ := h
  unfold TokenApp.processBlockRollback App.processBlockRollback
  by_cases htype : b.type ∉ (tokenHooks env content).accountTypes
  · rw [if_pos htype]
    exact ⟨chains, hkept.shows⟩
  rw [if_neg htype]
  cases hcode : s.app.rollbackBlock_ env (tokenHooks env content) fails b with
  | error code => exact ⟨chains, hkept.shows⟩
  | ok app =>
      obtain ⟨rest, hrolled⟩ := rollbackBlock_rolledBack happart hkept.shows hb hcode
      exact ⟨_, hrolled.shows⟩

theorem processCrossChainBlocks_inv {batch : List CrossChainBlockEvents}
    (h : s.Inv env content blocks) :
    (s.processCrossChainBlocks env refused batch).Inv env content blocks := by
  obtain ⟨chains, hkept, hopen, hfar⟩ := h
  unfold TokenApp.processCrossChainBlocks
  dsimp only
  cases hcode : (processCrossChainBlocks ⟨env, s.app.store, refused⟩ s.app.ledger batch).code with
  | some code =>
      obtain ⟨-, hledger, -⟩ := batch_refused hcode
      dsimp only
      rw [hledger]
      exact ⟨chains, hkept, hopen, hfar⟩
  | none =>
      cases batch with
      | nil => exact absurd hcode (by simp [processCrossChainBlocks])
      | cons first rest =>
          obtain ⟨-, hledger⟩ := batch_taken hcode
          dsimp only
          have hnext : TokenApp.Kept env content blocks chains { s with
              app := { s.app with
                ledger := (processCrossChainBlocks ⟨env, s.app.store, refused⟩ s.app.ledger
                  (first :: rest)).ledger } } :=
            hkept.moved hkept.shows fun _ _ _ hlt => hlt
          refine TokenApp.queueCrossChain_inv hnext hopen fun e he head hget => ?_
          change (processCrossChainBlocks ⟨env, s.app.store, refused⟩ s.app.ledger
            (first :: rest)).ledger.chainHeads.get e.chain = some head at hget
          by_cases hchain : e.chain = first.chain
          · refine .inr ⟨hchain, ?_⟩
            rw [TokenLedger.chainHead, ← hchain, hget]
            rfl
          · refine .inl (hfar e he head ?_)
            rw [hledger] at hget
            change ((applyBlocks s.app.ledger (first :: rest)).chainHeads.put _ _).get _ = _ at hget
            rw [Table.get_put, if_neg hchain, applyBlocks_chainHeads] at hget
            exact hget

end Steps

-- What the queues promise between two actions: no position that is waited for is confirmed, a block
-- that waits is held, and what is waited for only if it is there is still there.
structure TokenApp.NoLostWakeUp (env : Env) (content : Block → TokenContent) (s : TokenApp) :
    Prop where
  unconfirmed : ∀ entry ∈ s.blockWaiting, ¬ConfirmedAt s.app.store entry.for_.1 entry.for_.2
  held : ∀ hash account height,
    s.waits.get hash = some (some (.block account height)) ∨
      s.waits.get hash = some (some (.existing account height)) →
        ∃ entry ∈ s.blockWaiting, env.hash entry.block = hash
  existing : ∀ entry ∈ s.blockWaiting, entry.existing = true →
    ∃ b, s.app.store.blockGet (env.hash b) = some b ∧ b.account = entry.for_.1 ∧
      b.height = entry.for_.2 ∧ ¬ConfirmedAt s.app.store b.account b.height
  heldFor : ∀ hash chain height, s.waits.get hash = some (some (.chain chain height)) →
    ∃ entry ∈ s.chainWaiting, env.hash entry.block = hash ∧ entry.chain = chain ∧
      entry.height = height ∧
        ∀ head, s.app.ledger.chainHeads.get chain = some head → head.toNat < height
  unknown : ∀ hash, s.waits.get hash = some none →
    ∃ b, env.hash b = hash ∧ WrapsUnknown (content b)

-- The head of an account is not rolled back while something waits for it to be confirmed.
def TokenApp.Spares (env : Env) (s : TokenApp) : TokenAppAction → Prop
  | .rollback _ block => ∀ entry ∈ s.blockWaiting, entry.existing = true →
    entry.for_ = (block.account, block.height) →
      ∀ info, s.app.store.accountInfoGet block.account = some info → info.head ≠ env.hash block
  | _ => True

section Runs

variable {env : Env} {content : Block → TokenContent} {blocks : Set Block} {s : TokenApp}

theorem TokenApp.Inv.noLostWakeUp (h : s.Inv env content blocks) : s.NoLostWakeUp env content := by
  obtain ⟨chains, hkept, hopen, hfar⟩ := h
  refine ⟨hopen, fun hash account height hget => ?_, fun entry hentry hexisting => ?_,
    fun hash followed height hget => ?_, fun hash hget => ?_⟩
  · rcases hget with hget | hget
    · exact hkept.held hash _ hget
    · exact hkept.held hash _ hget
  · obtain ⟨b, hb, hheight⟩ := (hkept.shows.stores.chain entry.for_.1).exists_height
      (hkept.existing entry hentry hexisting)
    change b.height = entry.for_.2 at hheight
    have haccount := hkept.shows.account_eq hb
    obtain ⟨above, habove⟩ := Shape.entry_of_mem hb
    have hrow := hkept.shows.stores.get_of_entry habove
    have hget : s.app.store.blocks.get (env.hash b) = some ⟨b, above⟩ := rows_eq_some.mp hrow
    refine ⟨b, ?_, haccount, hheight, ?_⟩
    · rw [Store.blockGet, hget]
      rfl
    · rw [haccount, hheight]
      exact hopen entry hentry
  · obtain ⟨entry, hentry, hhash, rfl, rfl⟩ := hkept.held hash _ hget
    exact ⟨entry, hentry, hhash, rfl, rfl, hfar entry hentry⟩
  · obtain ⟨b, -, hb⟩ := hkept.unknown hash hget
    exact ⟨b, hb⟩

theorem TokenApp.inv_empty : TokenApp.empty.Inv env content blocks := by
  refine ⟨fun _ => [], ⟨ShowsChains.empty, ?_, ?_, ?_, ?_⟩, ?_, ?_⟩
  · exact fun _ he => (by cases he)
  · exact fun _ he => (by cases he)
  · exact fun _ _ hget => (by cases hget)
  · exact fun _ hget => (by cases hget)
  · exact fun _ he => (by cases he)
  · exact fun _ he => (by cases he)

theorem TokenApp.take_inv (happart : Apart env blocks) {action : TokenAppAction}
    (hfits : action.Fits blocks) (hspares : s.Spares env action) (h : s.Inv env content blocks) :
    (s.take env content action).Inv env content blocks := by
  cases action with
  | process fails refused block confirmed => exact processBlock_inv happart h hfits
  | rollback fails block => exact processBlockRollback_inv happart h hfits hspares
  | follow refused batch => exact processCrossChainBlocks_inv h
  | restart =>
      obtain ⟨chains, hkept, -, -⟩ := h
      refine ⟨chains, ⟨hkept.shows, ?_, ?_, ?_, ?_⟩, ?_, ?_⟩
      · exact fun _ he => (by cases he)
      · exact fun _ he => (by cases he)
      · exact fun _ _ hget => (by cases hget)
      · exact fun _ hget => (by cases hget)
      · exact fun _ he => (by cases he)
      · exact fun _ he => (by cases he)

private theorem run_inv (happart : Apart env blocks) {history : History TokenApp TokenAppAction}
    (hrun : (tokenAppMachine env content blocks).Run (fun _ _ => True) history s)
    (hspares : ∀ taken ∈ history, taken.1.Spares env taken.2) : s.Inv env content blocks := by
  refine hrun.invariant (P := fun history s => (∀ taken ∈ history, taken.1.Spares env taken.2) →
    s.Inv env content blocks) ?_ ?_ hspares
  · rintro _ rfl -
    exact TokenApp.inv_empty
  · intro history s action _ hfits _ ih hspares
    rw [List.forall_mem_cons] at hspares
    exact TokenApp.take_inv happart hfits hspares.1 (ih hspares.2)

-- No wake-up is lost in a run that rolls back nothing that is waited for.
theorem no_wakeUp_lost (happart : Apart env blocks) {history : History TokenApp TokenAppAction}
    (hrun : (tokenAppMachine env content blocks).Run (fun _ _ => True) history s)
    (hspares : ∀ taken ∈ history, taken.1.Spares env taken.2) : s.NoLostWakeUp env content :=
  (run_inv happart hrun hspares).noLostWakeUp

end Runs

-- Account 2 inquires about an order of account 1, to be acknowledged by account 3 with its first
-- block. That one is there, and then it is not.
section Vanishing

def vanishingContent (block : Block) : TokenContent :=
  if block.account = 1 then
    match block.height with
    | 0 => .operation (.create tradeCreate) tradeCreate_checked
    | 1 => .operation (.receive (tradeReceive 1)) tradeReceive_checked
    | 2 => .operation (.swap (.config 3)) tradeConfig_checked
    | _ => .operation (.swap (.make tradeMake)) tradeMake_checked
  else if block.account = 2 then
    .operation (.swap (.inquiry ⟨1, 3, 0, 5, 160, 7⟩)) tradeInquiry_checked
  else .none

def vanishingBlocks : List Block :=
  [tradeBlock 1 0, tradeBlock 1 1, tradeBlock 1 2, tradeBlock 1 3, tradeBlock 3 0, tradeBlock 2 0]

def vanishingActions : List TokenAppAction :=
  let append (block : Block) (confirmed : Bool) :=
    TokenAppAction.process StoreCall.never TokenCall.never block confirmed
  [append (tradeBlock 1 0) true, append (tradeBlock 1 1) true, append (tradeBlock 1 2) true,
    append (tradeBlock 1 3) true, append (tradeBlock 3 0) false, append (tradeBlock 2 0) true]

def vanishingMachine : Machine TokenApp TokenAppAction :=
  tokenAppMachine sampleEnv vanishingContent { b | b ∈ vanishingBlocks }

def vanishingRun (actions : List TokenAppAction) : History TokenApp TokenAppAction × TokenApp :=
  vanishingMachine.exec .empty actions

theorem vanishing_apart : Apart sampleEnv { b | b ∈ vanishingBlocks } where
  injective := by
    change ∀ b ∈ vanishingBlocks, ∀ c ∈ vanishingBlocks, sampleEnv.hash b = sampleEnv.hash c → b = c
    decide +kernel
  ne_zero := by
    change ∀ b ∈ vanishingBlocks, sampleEnv.hash b ≠ 0
    decide +kernel
  height_ne := by
    change ∀ b ∈ vanishingBlocks, b.height ≠ INVALID_HEIGHT
    decide +kernel

theorem vanishingActions_fits : ∀ action ∈ vanishingActions,
    action.Fits { b | b ∈ vanishingBlocks } := by
  intro action hmem
  simp only [vanishingActions, List.mem_cons, List.not_mem_nil, or_false] at hmem
  rcases hmem with rfl | rfl | rfl | rfl | rfl | rfl
  all_goals
    change _ ∈ vanishingBlocks
    simp only [vanishingBlocks, List.mem_cons, true_or, or_true]

theorem vanishing_mem : tradeBlock 3 0 ∈ vanishingBlocks := by
  simp only [vanishingBlocks, List.mem_cons, true_or, or_true]

theorem vanishing_run : vanishingMachine.Run (fun _ _ => True) (vanishingRun vanishingActions).1
    (vanishingRun vanishingActions).2 := by
  refine Machine.exec_run rfl (fun action hmem _ => vanishingActions_fits action hmem) ?_
  exact fun _ _ => trivial

theorem vanishing_spares : ∀ taken ∈ (vanishingRun vanishingActions).1,
    taken.1.Spares sampleEnv taken.2 := by
  intro taken htaken
  have hmem := Machine.action_of_exec htaken
  generalize taken.2 = action at hmem
  simp only [vanishingActions, List.mem_cons, List.not_mem_nil, or_false] at hmem
  rcases hmem with rfl | rfl | rfl | rfl | rfl | rfl <;> exact trivial

theorem no_wakeUp_lost_sample :
    (vanishingRun vanishingActions).2.NoLostWakeUp sampleEnv vanishingContent ∧
      ∃ entry ∈ (vanishingRun vanishingActions).2.blockWaiting, entry.existing = true :=
  ⟨no_wakeUp_lost vanishing_apart vanishing_run vanishing_spares, by decide +kernel⟩

def vanishedActions : List TokenAppAction :=
  vanishingActions ++ [.rollback StoreCall.never (tradeBlock 3 0)]

theorem vanished_run : vanishingMachine.Run (fun _ _ => True) (vanishingRun vanishedActions).1
    (vanishingRun vanishedActions).2 := by
  refine Machine.exec_run rfl (fun action hmem _ => ?_) fun _ _ => trivial
  rcases List.mem_append.mp hmem with hmem | hmem
  · exact vanishingActions_fits action hmem
  · rw [List.mem_singleton.mp hmem]
    exact vanishing_mem

-- The inquiry still waits for the block that has been rolled back, and nothing will wake it up.
theorem vanished_not_woken : Apart sampleEnv { b | b ∈ vanishingBlocks } ∧
    vanishingMachine.Run (fun _ _ => True) (vanishingRun vanishedActions).1
      (vanishingRun vanishedActions).2 ∧
    ¬(vanishingRun vanishedActions).2.NoLostWakeUp sampleEnv vanishingContent := by
  refine ⟨vanishing_apart, vanished_run, fun h => ?_⟩
  have hinv : (vanishingRun vanishingActions).2.Inv sampleEnv vanishingContent
      { b | b ∈ vanishingBlocks } := run_inv vanishing_apart vanishing_run vanishing_spares
  obtain ⟨chains, hshows⟩ := @processBlockRollback_shows _ _ _ _ _ StoreCall.never vanishing_apart
    hinv vanishing_mem
  have hgone : ((vanishingRun vanishedActions).2.app.store.accountInfoGet 3).filter
      AccountInfo.valid = none := by decide +kernel
  have hentry : ∃ entry ∈ (vanishingRun vanishedActions).2.blockWaiting,
      entry.existing = true ∧ entry.for_ = (3, 0) := by decide +kernel
  obtain ⟨entry, hentry, hexisting, hfor⟩ := hentry
  obtain ⟨b, hget, haccount, -, -⟩ := h.existing entry hentry hexisting
  rw [show (vanishingRun vanishedActions).2 = _ from
    congrArg Prod.snd (Machine.exec_append _ _ _)] at hgone hget
  have hmem := hshows.mem_of_blockGet hget
  rw [haccount, hfor, hshows.filter_info vanishing_apart hgone] at hmem
  cases hmem

end Vanishing

end Raicoin
