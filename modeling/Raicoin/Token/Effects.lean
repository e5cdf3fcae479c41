import Raicoin.Token.Updates

-- What the helpers make of the tables when they succeed.
namespace Raicoin

open Lib Process

namespace TokenLedger

variable (l : TokenLedger)

-- The list of a token's blocks of an account, after one more.
def linked (account : Account) (height : Nat) (token : TokenKey) : TokenLedger :=
  let info := (l.accountTokens.get (account, token)).getD .init
  let links := if info.head = INVALID_HEIGHT then l.accountTokenLinks
    else l.accountTokenLinks.change ⟨account, token, info.head⟩ fun link => (link.1, height)
  { l with
    accountTokenLinks := links.put ⟨account, token, height⟩ (info.head, INVALID_HEIGHT)
    accountTokens := l.accountTokens.put (account, token)
      { info with head := height, blocks := info.blocks + 1 } }

-- The list of token blocks of an account, after one more.
def listed (hash : BlockHash) (block : Block) (status : Option ErrorCode) (value : TokenValue)
    (valueOp : ValueOp) (token : TokenKey) : TokenLedger :=
  let info := (l.accountsTokens.get block.account).getD .init
  let blocks := if info.head = INVALID_HEIGHT then l.tokenBlocks
    else l.tokenBlocks.change (block.account, info.head) fun b =>
      { b with successor := block.height }
  { l with
    tokenBlocks := blocks.put (block.account, block.height)
      ⟨info.head, hash, status, value, valueOp, token, INVALID_HEIGHT⟩
    accountsTokens := l.accountsTokens.put block.account ⟨block.height, info.blocks + 1⟩ }

def recorded (hash : BlockHash) (block : Block) (status : Option ErrorCode) (value : TokenValue)
    (valueOp : ValueOp) (tokens : List TokenKey) : TokenLedger :=
  tokens.foldl (fun l token => l.linked block.account block.height token)
    (l.listed hash block status value valueOp (tokens.headD .init))

def credited (key : TokenReceivableKey) (receivable : TokenReceivable) : TokenLedger :=
  { l with receivables := l.receivables.put key receivable }

def countHolders (previous current : TokenValue) (info : TokenInfo) : TokenInfo :=
  { info with
    holders := info.holders + (if previous = 0 then 1 else 0) - if current = 0 then 1 else 0 }

def balanced (account : Account) (token : TokenKey) (previous current : TokenValue) :
    TokenLedger :=
  { l with
    tokens := if previous = current then l.tokens
      else l.tokens.change token (countHolders previous current)
    holders := if previous = current then l.holders
      else
        let rest := if previous = 0 then l.holders else l.holders.del ⟨token, previous, account⟩
        if current = 0 then rest else rest.put ⟨token, current, account⟩ ()
    accountTokens := if previous = current then l.accountTokens
      else l.accountTokens.put (account, token)
        { (l.accountTokens.get (account, token)).getD .init with balance := current } }

def supplied (token : TokenKey) (totalSupply localSupply : TokenValue) : TokenLedger :=
  { l with tokens := l.tokens.change token fun info => { info with totalSupply, localSupply } }

def transferred (token : TokenKey) (timestamp : Nat) (account : Account) (height : Nat) :
    TokenLedger :=
  { l with
    tokens := l.tokens.change token fun info => { info with transfers := info.transfers + 1 }
    transfers := l.transfers.put ⟨token, timestamp, account, height⟩ () }

def idTransferred (token : TokenKey) (id : TokenValue) (account : Account) (height : Nat) :
    TokenLedger :=
  { l with
    tokenIds := l.tokenIds.change (token, id) fun info =>
      { info with transfers := info.transfers + 1 }
    idTransfers := l.idTransfers.put
      ⟨token, id, ((l.tokenIds.get (token, id)).map TokenIdInfo.transfers).getD 0⟩
      (account, height) }

def swapsRaised (account : Account) (raise : AccountSwapInfo → AccountSwapInfo) : TokenLedger :=
  { l with
    accountSwaps := l.accountSwaps.put account (raise ((l.accountSwaps.get account).getD .init)) }

def swapsAdjusted (account : Account) (adjust : AccountSwapInfo → AccountSwapInfo) : TokenLedger :=
  { l with accountSwaps := l.accountSwaps.change account adjust }

def orderSwapIndexed (swap : SwapInfo) (taker : Account) (inquiryHeight : Nat) : TokenLedger :=
  { l with
    orderSwapIndexes := l.orderSwapIndexes.put
      ⟨swap.maker, swap.orderHeight, swap.tradeHeight, taker, inquiryHeight⟩ () }

def swapIndexed (taker : Account) (inquiryHeight timestamp : Nat) (token : TokenKey) :
    TokenLedger :=
  { l with
    tokenSwapIndexes := l.tokenSwapIndexes.put ⟨token, timestamp, taker, inquiryHeight⟩ ()
    tokens := l.tokens.change token fun info => { info with swaps := info.swaps + 1 } }

end TokenLedger

-- The computation can end with `a`, having turned the tables `l` into `l'`.
def Turns {α : Type} (p : TokenM α) (l : TokenLedger) (a : α) (l' : TokenLedger) : Prop :=
  ∃ s s', p s = .ok a s' ∧ s.ledger = l ∧ s'.ledger = l'

section Turns

variable {env : TokenEnv} {l l' : TokenLedger} {α β : Type}

theorem turns_of_ok {p : TokenM α} {s s' : TokenSession} {a : α} (h : p s = .ok a s') :
    Turns p s.ledger a s'.ledger :=
  ⟨s, s', h, rfl, rfl⟩

theorem Turns.bind {x : TokenM α} {f : α → TokenM β} {b : β} (h : Turns (x >>= f) l b l') :
    ∃ a mid, Turns x l a mid ∧ Turns (f a) mid b l' := by
  obtain ⟨s, s', hok, rfl, rfl⟩ := h
  obtain ⟨a, mid, hx, hf⟩ := (bind_eq_ok x f s s' b).mp hok
  exact ⟨a, mid.ledger, turns_of_ok hx, turns_of_ok hf⟩

theorem Turns.pure {a b : α} (h : Turns (Pure.pure a) l b l') : a = b ∧ l = l' := by
  obtain ⟨s, s', hok, rfl, rfl⟩ := h
  obtain ⟨rfl, rfl⟩ := (pure_eq_ok a b s s').mp hok
  exact ⟨rfl, rfl⟩

theorem Turns.query {f : TokenLedger → Except ErrorCode α} {a : α} (h : Turns (query f) l a l') :
    f l = .ok a ∧ l = l' := by
  obtain ⟨s, s', hok, rfl, rfl⟩ := h
  obtain ⟨hf, rfl⟩ := (query_eq_ok f a).mp hok
  exact ⟨hf, rfl⟩

theorem Turns.store {call : TokenCall} {code : ErrorCode} {f : TokenLedger → TokenLedger}
    {present : TokenLedger → Bool} {u : Unit} (h : Turns (store env call code f present) l u l') :
    present l = true ∧ l' = f l := by
  obtain ⟨s, s', hok, rfl, rfl⟩ := h
  obtain ⟨-, hpresent, rfl⟩ := (store_eq_ok call code f present u).mp hok
  exact ⟨hpresent, rfl⟩

theorem Turns.tell {notice : Notice} {u : Unit} (h : Turns (tell notice) l u l') : l = l' := by
  obtain ⟨s, s', hok, rfl, rfl⟩ := h
  rw [← (tell_eq_ok notice u).mp hok]

theorem Turns.observe {notice : Notice} {u : Unit} (h : Turns (observe notice) l u l') :
    l = l' := by
  obtain ⟨s, s', hok, rfl, rfl⟩ := h
  rw [← (observe_eq_ok notice u).mp hok]

theorem Turns.runIf {condition : Prop} [Decidable condition] {p : TokenM Unit} {u : Unit}
    (h : Turns (runIf condition p) l u l') :
    (condition ∧ Turns p l u l') ∨ (¬condition ∧ l = l') := by
  obtain ⟨s, s', hok, rfl, rfl⟩ := h
  rcases (runIf_eq_ok condition p s s' u).mp hok with ⟨hc, hp⟩ | ⟨hc, rfl⟩
  · exact .inl ⟨hc, turns_of_ok hp⟩
  · exact .inr ⟨hc, rfl⟩

theorem Turns.query_bind {f : TokenLedger → Except ErrorCode α} {g : α → TokenM β} {b : β}
    (h : Turns (Raicoin.query f >>= g) l b l') : ∃ a, f l = .ok a ∧ Turns (g a) l b l' := by
  obtain ⟨a, mid, hq, hg⟩ := h.bind
  obtain ⟨hf, rfl⟩ := hq.query
  exact ⟨a, hf, hg⟩

theorem Turns.store_bind {call : TokenCall} {code : ErrorCode} {f : TokenLedger → TokenLedger}
    {present : TokenLedger → Bool} {g : Unit → TokenM β} {b : β}
    (h : Turns (Raicoin.store env call code f present >>= g) l b l') :
    present l = true ∧ Turns (g ()) (f l) b l' := by
  obtain ⟨_, mid, hstore, hg⟩ := h.bind
  obtain ⟨hpresent, rfl⟩ := hstore.store
  exact ⟨hpresent, hg⟩

theorem Turns.tell_bind {notice : Notice} {g : Unit → TokenM β} {b : β}
    (h : Turns (Raicoin.tell notice >>= g) l b l') : Turns (g ()) l b l' := by
  obtain ⟨_, mid, htell, hg⟩ := h.bind
  obtain rfl := htell.tell
  exact hg

theorem Turns.observe_bind {notice : Notice} {g : Unit → TokenM β} {b : β}
    (h : Turns (Raicoin.observe notice >>= g) l b l') : Turns (g ()) l b l' := by
  obtain ⟨_, mid, hobserve, hg⟩ := h.bind
  obtain rfl := hobserve.observe
  exact hg

end Turns

section Specs

variable {env : TokenEnv} {l l' : TokenLedger} {u : Unit}

theorem tokenInfoGet_bind {key : TokenKey} {code : ErrorCode} {β : Type} {g : TokenInfo → TokenM β}
    {b : β} (h : Turns (tokenInfoGet key code >>= g) l b l') :
    ∃ info, l.tokens.get key = some info ∧ Turns (g info) l b l' := by
  obtain ⟨info, hget, hg⟩ := Turns.query_bind h
  exact ⟨info, (orReturn_eq_ok _ _ _).mp hget, hg⟩

theorem accountTokenInfoBelow_ok {account : Account} {token : TokenKey} {height : Nat}
    {info : AccountTokenInfo} (h : accountTokenInfoBelow l account token height = .ok info) :
    (l.accountTokens.get (account, token)).getD .init = info ∧
      (info.head = INVALID_HEIGHT ∨ info.head < height) := by
  unfold accountTokenInfoBelow at h
  split at h
  · rename_i hget
    cases h
    exact ⟨by rw [hget]; rfl, .inl rfl⟩
  · rename_i held hget
    split at h
    · cases h
    · rename_i hlow
      cases h
      refine ⟨by rw [hget]; rfl, ?_⟩
      by_cases hhead : info.head = INVALID_HEIGHT
      · exact .inl hhead
      · exact .inr (by omega)

theorem accountTokensInfoBelow_ok {account : Account} {height : Nat} {info : AccountTokensInfo}
    (h : accountTokensInfoBelow l account height = .ok info) :
    (l.accountsTokens.get account).getD .init = info ∧
      ∀ held, l.accountsTokens.get account = some held → held.head < height := by
  unfold accountTokensInfoBelow at h
  split at h
  · rename_i hget
    cases h
    exact ⟨by rw [hget]; rfl, fun held hheld => by rw [hget] at hheld; cases hheld⟩
  · rename_i held hget
    split at h
    · cases h
    · cases h
      refine ⟨by rw [hget]; rfl, fun other hother => ?_⟩
      rw [hget] at hother
      cases hother
      omega

theorem linkTokens_turns {account : Account} {height : Nat} {tokens : List TokenKey}
    {pairs : List (TokenKey × AccountTokenInfo)}
    (h : Turns (linkTokens env account height tokens) l pairs l') :
    l' = tokens.foldl (fun l token => l.linked account height token) l := by
  induction tokens generalizing l pairs with
  | nil => exact (Turns.pure h).2.symm
  | cons token tokens ih =>
      rw [linkTokens] at h
      obtain ⟨info, hinfo, h⟩ := h.query_bind
      obtain ⟨_, l₁, hset, h⟩ := h.bind
      obtain ⟨-, h⟩ := h.store_bind
      obtain ⟨-, h⟩ := h.store_bind
      obtain ⟨rest, l₂, hrest, h⟩ := h.bind
      obtain ⟨-, rfl⟩ := h.pure
      rw [ih hrest, List.foldl_cons]
      congr 1
      rw [TokenLedger.linked, (accountTokenInfoBelow_ok hinfo).1]
      rcases hset.runIf with ⟨hhead, hset⟩ | ⟨hhead, rfl⟩
      · obtain ⟨-, rfl⟩ := hset.store
        simp only [if_neg hhead]
      · simp only [if_pos (not_not.mp hhead)]

theorem updateLedgerCommon_turns {block : Block} {status : Option ErrorCode} {value : TokenValue}
    {valueOp : ValueOp} {tokens : List TokenKey}
    (h : Turns (updateLedgerCommon_ env block status value valueOp tokens) l u l') :
    l' = l.recorded (env.hash block) block status value valueOp tokens ∧
      ∀ held, l.accountsTokens.get block.account = some held → held.head < block.height := by
  rw [updateLedgerCommon_] at h
  obtain ⟨info, hinfo, h⟩ := h.query_bind
  obtain ⟨hheld, hbelow⟩ := accountTokensInfoBelow_ok hinfo
  refine ⟨?_, hbelow⟩
  obtain ⟨_, l₁, hset, h⟩ := h.bind
  obtain ⟨-, h⟩ := h.store_bind
  obtain ⟨-, h⟩ := h.store_bind
  obtain ⟨pairs, l₂, hlink, h⟩ := h.bind
  obtain rfl := h.observe
  rw [linkTokens_turns hlink, TokenLedger.recorded]
  congr 1
  rw [TokenLedger.listed, hheld]
  rcases hset.runIf with ⟨hhead, hset⟩ | ⟨hhead, rfl⟩
  · obtain ⟨-, rfl⟩ := hset.store
    simp only [if_neg hhead]
  · simp only [if_pos (not_not.mp hhead)]

theorem updateLedgerReceivable_turns {key : TokenReceivableKey} {receivable : TokenReceivable}
    {info : TokenInfo} {block : Option Block}
    (h : Turns (updateLedgerReceivable_ env key receivable info block) l u l') :
    l' = l.credited key receivable :=
  h.store_bind.2.tell.symm

theorem updateLedgerSupplies_turns {token : TokenKey} {totalSupply localSupply : TokenValue}
    (h : Turns (updateLedgerSupplies_ env token totalSupply localSupply) l u l') :
    l' = l.supplied token totalSupply localSupply := by
  obtain ⟨info, hget, h⟩ := tokenInfoGet_bind h
  rw [← h.store_bind.2.tell, TokenLedger.supplied, Table.change_of_get hget]

theorem updateLedgerTokenTransfer_turns {token : TokenKey} {timestamp height : Nat}
    {account : Account}
    (h : Turns (updateLedgerTokenTransfer_ env token timestamp account height) l u l') :
    l' = l.transferred token timestamp account height := by
  obtain ⟨info, hget, h⟩ := tokenInfoGet_bind h
  rw [h.store_bind.2.tell_bind.store.2, TokenLedger.transferred, Table.change_of_get hget]

theorem updateLedgerTokenIdTransfer_turns {token : TokenKey} {id : TokenValue} {height : Nat}
    {account : Account}
    (h : Turns (updateLedgerTokenIdTransfer_ env token id account height) l u l') :
    l' = l.idTransferred token id account height ∧ (l.tokenIds.get (token, id)).isSome := by
  obtain ⟨info, hget, h⟩ := h.query_bind
  have hinfo := (orReturn_eq_ok _ _ _).mp hget
  rw [h.store_bind.2.store.2, TokenLedger.idTransferred, Table.change_of_get hinfo, hinfo]
  exact ⟨rfl, rfl⟩

theorem raiseAccountSwaps_turns {account : Account} {raise : AccountSwapInfo → AccountSwapInfo}
    (h : Turns (raiseAccountSwaps env account raise) l u l') : l' = l.swapsRaised account raise := by
  obtain ⟨info, hget, h⟩ := h.query_bind
  cases hget
  exact h.store.2

theorem adjustAccountSwaps_turns {account : Account} {low : AccountSwapInfo → Bool}
    {adjust : AccountSwapInfo → AccountSwapInfo}
    (h : Turns (adjustAccountSwaps env account low adjust) l u l') :
    l' = l.swapsAdjusted account adjust ∧
      ∃ info, l.accountSwaps.get account = some info ∧ low info = false := by
  obtain ⟨info, hget, h⟩ := h.query_bind
  simp only [Except.bind_eq_ok, orReturn_eq_ok, returnIf_eq_ok, Bool.not_eq_true] at hget
  obtain ⟨held, hheld, _, hlow, hget⟩ := hget
  cases hget
  rw [h.store.2, TokenLedger.swapsAdjusted, Table.change_of_get hheld]
  exact ⟨rfl, info, hheld, hlow⟩

theorem indexTokenSwap_turns {taker : Account} {inquiryHeight timestamp : Nat} {token : TokenKey}
    (h : Turns (indexTokenSwap env taker inquiryHeight timestamp token) l u l') :
    l' = l.swapIndexed taker inquiryHeight timestamp token ∧ (l.tokens.get token).isSome := by
  obtain ⟨-, h⟩ := h.store_bind
  obtain ⟨info, hget, h⟩ := tokenInfoGet_bind h
  have hinfo : l.tokens.get token = some info := hget
  rw [← h.store_bind.2.tell, TokenLedger.swapIndexed, Table.change_of_get hinfo, hinfo]
  exact ⟨rfl, rfl⟩

private theorem pos_iff {value : TokenValue} : value > 0 ↔ value ≠ 0 := by
  constructor
  · rintro hpos rfl
    exact absurd hpos (by decide)
  · intro hne
    bv_omega

theorem updateHolders_turns {token : TokenKey} {previous current : TokenValue}
    (h : Turns (updateHolders env token previous current) l u l') :
    l' = { l with tokens := l.tokens.change token (TokenLedger.countHolders previous current) } ∧
      ∃ info, l.tokens.get token = some info ∧ (current = 0 → previous ≠ 0 → 0 < info.holders) := by
  obtain ⟨info, hget, h⟩ := tokenInfoGet_bind h
  obtain ⟨_, hpos, h⟩ := h.query_bind
  simp only [returnIf_eq_ok, not_and] at hpos
  refine ⟨?_, info, hget, fun hcurrent hprevious => ?_⟩
  · rw [Table.change_of_get hget]
    rcases h.runIf with ⟨-, h⟩ | ⟨hnone, rfl⟩
    · rw [← h.store_bind.2.tell]
      congr 2
      unfold TokenLedger.countHolders
      by_cases hp : previous = 0
      · by_cases hc : current = 0 <;> simp only [hp, hc, if_true, if_false, Nat.sub_zero]
      · by_cases hc : current = 0 <;> simp only [hp, hc, if_true, if_false, Nat.sub_zero, add_zero]
    · have hp : previous ≠ 0 := fun hp => hnone (.inl hp)
      have hc : current ≠ 0 := fun hc => hnone (.inr hc)
      simp only [TokenLedger.countHolders, if_neg hp, if_neg hc, add_zero, Nat.sub_zero]
      rw [Table.put_of_get hget]
  · have := hpos hcurrent
    rw [if_neg hprevious] at this
    omega

theorem updateLedgerBalance_turns {account : Account} {token : TokenKey}
    {previous current : TokenValue}
    (h : Turns (updateLedgerBalance_ env account token previous current) l u l') :
    l' = l.balanced account token previous current ∧ (previous ≠ current →
      (∃ info, l.tokens.get token = some info ∧
        (current = 0 → previous ≠ 0 → 0 < info.holders)) ∧
      (previous ≠ 0 → l.holders.contains ⟨token, previous, account⟩)) := by
  rw [updateLedgerBalance_] at h
  rcases h.runIf with ⟨hne, h⟩ | ⟨heq, rfl⟩
  · obtain ⟨_, l₁, hcount, h⟩ := h.bind
    obtain ⟨hcounted, hinfo⟩ := updateHolders_turns hcount
    obtain ⟨_, l₂, hdel, h⟩ := h.bind
    obtain ⟨_, l₃, hput, h⟩ := h.bind
    obtain ⟨held, hheld, h⟩ := h.query_bind
    cases hheld
    have hdel' : l₂ = { l₁ with
        holders := if previous = 0 then l₁.holders
          else l₁.holders.del ⟨token, previous, account⟩ } ∧
        (previous ≠ 0 → l₁.holders.contains ⟨token, previous, account⟩) := by
      rcases hdel.runIf with ⟨hpos, hdel⟩ | ⟨hzero, rfl⟩
      · have hne₀ := pos_iff.mp hpos
        obtain ⟨_, -, hdel⟩ := hdel.query_bind
        obtain ⟨hcontains, rfl⟩ := hdel.store
        exact ⟨by rw [if_neg hne₀], fun _ => hcontains⟩
      · have hp : previous = 0 := not_not.mp fun hp => hzero (pos_iff.mpr hp)
        exact ⟨by rw [if_pos hp], fun hne => absurd hp hne⟩
    have hput' : l₃ = { l₂ with
        holders := if current = 0 then l₂.holders
          else l₂.holders.put ⟨token, current, account⟩ () } := by
      rcases hput.runIf with ⟨hpos, hput⟩ | ⟨hzero, rfl⟩
      · obtain ⟨-, rfl⟩ := hput.store
        rw [if_neg (pos_iff.mp hpos)]
      · rw [if_pos (not_not.mp fun hc => hzero (pos_iff.mpr hc))]
    obtain ⟨rfl, hcontains⟩ := hdel'
    subst hput' hcounted
    refine ⟨?_, fun _ => ⟨hinfo, hcontains⟩⟩
    rw [h.store.2]
    simp only [TokenLedger.balanced, if_neg hne]
  · exact ⟨by simp only [TokenLedger.balanced, not_not.mp heq, if_true], fun hne => absurd hne heq⟩

theorem updateLedgerSwapIndex_turns {order : OrderInfo} {swap : SwapInfo} {taker : Account}
    {inquiryHeight timestamp : Nat}
    (h : Turns (updateLedgerSwapIndex_ env order swap taker inquiryHeight timestamp) l u l') :
    l' = ((l.orderSwapIndexed swap taker inquiryHeight).swapIndexed taker inquiryHeight timestamp
      order.tokenOffer).swapIndexed taker inquiryHeight timestamp order.tokenWant := by
  obtain ⟨-, h⟩ := h.store_bind
  obtain ⟨_, l₁, hoffer, hwant⟩ := h.bind
  rw [(indexTokenSwap_turns hwant).1, (indexTokenSwap_turns hoffer).1]
  rfl

theorem updateLedgerAccountSwapTime_turns {account : Account} {time : Nat}
    {get : AccountSwapInfo → Nat} {set : AccountSwapInfo → AccountSwapInfo}
    (h : Turns (updateLedgerAccountSwapTime env account time get set) l u l') :
    l' = l ∨ l' = l.swapsRaised account set := by
  obtain ⟨info, hget, h⟩ := h.query_bind
  cases hget
  rcases h.runIf with ⟨-, h⟩ | ⟨-, rfl⟩
  · exact .inr (h.store_bind.2.observe ▸ rfl)
  · exact .inl rfl

end Specs

end Raicoin
