import Raicoin.Lib.Paging
import Raicoin.Properties.AppEffects
import Raicoin.Properties.WakeUps
import Raicoin.Properties.Orders
import Raicoin.Properties.TokenScans
import Raicoin.Token.OrderSearch

-- Pages of a search list every order that stays wanted exactly once, the best prices first.
namespace Raicoin

open Lib

-- The orders and their indexes.
section Books

variable {order : OrderInfo} {maker : Account} {height : Nat} {index : OrderIndex}

-- Both tokens have a type, and the values of a fungible pair are not zero.
structure OrderInfo.Priced (order : OrderInfo) : Prop where
  offer : order.typeOffer ≠ .invalid
  want : order.typeWant ≠ .invalid
  values : order.fungiblePair = true → order.valueOffer ≠ 0 ∧ order.valueWant ≠ 0

theorem OrderInfo.Priced.getIndex_place (h : order.Priced) (maker : Account) (height : Nat) :
    (order.getIndex maker height).maker = maker ∧ (order.getIndex maker height).height = height ∧
      (order.getIndex maker height).tokenOffer = order.tokenOffer ∧
      (order.getIndex maker height).typeOffer = order.typeOffer ∧
      (order.getIndex maker height).tokenWant = order.tokenWant ∧
      (order.getIndex maker height).typeWant = order.typeWant := by
  have hoffer := h.offer
  have hwant := h.want
  unfold OrderInfo.getIndex
  cases hofferType : order.typeOffer with
  | invalid => exact absurd hofferType hoffer
  | t20 =>
      cases hwantType : order.typeWant with
      | invalid => exact absurd hwantType hwant
      | t20 => exact ⟨rfl, rfl, rfl, rfl, rfl, rfl⟩
      | t721 => exact ⟨rfl, rfl, rfl, rfl, rfl, rfl⟩
  | t721 =>
      cases hwantType : order.typeWant with
      | invalid => exact absurd hwantType hwant
      | t20 => exact ⟨rfl, rfl, rfl, rfl, rfl, rfl⟩
      | t721 => exact ⟨rfl, rfl, rfl, rfl, rfl, rfl⟩

theorem checkType_ne_invalid {type : TokenType} (h : checkType type = .ok ()) : type ≠ .invalid := by
  rintro rfl
  cases h

theorem makeOrder_priced {env : TokenEnv} {block : Block} {make : ExtensionTokenSwapMake}
    {main : Account} (checked : make.checkData = .ok ()) : (makeOrder env block make main).Priced := by
  unfold ExtensionTokenSwapMake.checkData ExtensionTokenInfo.checkData at checked
  simp only [Except.bind_eq_ok, returnIf_eq_ok, exists_const] at checked
  obtain ⟨_, ⟨_, -, hoffer⟩, _, ⟨_, -, hwant⟩, _, -, hvalueOffer, hvalueWant, -⟩ := checked
  refine ⟨checkType_ne_invalid hoffer, checkType_ne_invalid hwant, fun hpair => ?_⟩
  obtain ⟨h₁, h₂⟩ : make.tokenOffer.fungible = true ∧ make.tokenWant.fungible = true := by
    simpa [OrderInfo.fungiblePair, makeOrder, ExtensionTokenInfo.fungible] using hpair
  exact ⟨fun hzero => hvalueOffer ⟨h₁, hzero⟩, fun hzero => hvalueWant ⟨h₂, hzero⟩⟩

-- The terms that an order keeps as long as it is known.
structure OrderInfo.SameTerms (order order' : OrderInfo) : Prop where
  index : order'.getIndex = order.getIndex
  hash : order'.hash = order.hash
  priced : order.Priced → order'.Priced

theorem OrderInfo.SameTerms.refl (order : OrderInfo) : order.SameTerms order := ⟨rfl, rfl, id⟩

theorem OrderInfo.SameTerms.trans {order' order'' : OrderInfo} (h : order.SameTerms order')
    (h' : order'.SameTerms order'') : order.SameTerms order'' :=
  ⟨h'.index.trans h.index, h'.hash.trans h.hash, fun hpriced => h'.priced (h.priced hpriced)⟩

theorem OrderInfo.filled_sameTerms (order : OrderInfo) (value : TokenValue) (height : Nat) :
    order.SameTerms (order.filled value height) where
  index := OrderInfo.filled_kept (fun _ _ _ _ => rfl) order value height
  hash := OrderInfo.filled_kept (fun _ _ _ _ => rfl) order value height
  priced hpriced := by
    have hkept {β : Type} {f : OrderInfo → β} (hf : ∀ (order : OrderInfo) left finishedHeight
        finishedBy, f { order with left, finishedHeight, finishedBy } = f order) :
        f (order.filled value height) = f order := OrderInfo.filled_kept hf order value height
    refine ⟨?_, ?_, fun hpair => ?_⟩
    · rw [hkept (f := OrderInfo.typeOffer) fun _ _ _ _ => rfl]
      exact hpriced.offer
    · rw [hkept (f := OrderInfo.typeWant) fun _ _ _ _ => rfl]
      exact hpriced.want
    · rw [hkept (f := OrderInfo.valueOffer) fun _ _ _ _ => rfl,
        hkept (f := OrderInfo.valueWant) fun _ _ _ _ => rfl]
      rw [hkept (f := OrderInfo.fungiblePair) fun _ _ _ _ => rfl] at hpair
      exact hpriced.values hpair

theorem OrderInfo.cancelled_sameTerms (order : OrderInfo) (height : Nat) :
    order.SameTerms (order.cancelled height) :=
  ⟨rfl, rfl, fun h => ⟨h.offer, h.want, h.values⟩⟩

-- What a move of the swap book does to the orders.
inductive OrderMove (b b' : SwapBook) : Prop where
  | same (horders : b'.orders = b.orders) (hindexes : b'.orderIndexes = b.orderIndexes)
      (hcounters : ∀ account, (b.counters.get account).isSome → (b'.counters.get account).isSome)
  | made {maker : Account} {height : Nat} {order : OrderInfo}
      (hnew : b.orders.get (maker, height) = none) (hpriced : order.Priced)
      (hopen : order.finished = false) (hheight : height < 2 ^ 64)
      (horders : b'.orders = b.orders.put (maker, height) order)
      (hindexes : b'.orderIndexes = b.orderIndexes.put (order.getIndex maker height) ())
      (hcounters : ∀ account, (b.counters.get account).isSome ∨ account = maker →
        (b'.counters.get account).isSome)
  | changed {maker : Account} {height : Nat} {order order' : OrderInfo}
      (horder : b.orders.get (maker, height) = some order) (hopen : order.finished = false)
      (hterms : order.SameTerms order')
      (horders : b'.orders = b.orders.put (maker, height) order')
      (hindexes : b'.orderIndexes = if order'.finished then
        b.orderIndexes.del (order'.getIndex maker height) else b.orderIndexes)
      (hcounters : ∀ account, (b.counters.get account).isSome → (b'.counters.get account).isSome)

private theorem forall_put {t : Table (Account × Nat) OrderInfo}
    {P : Account × Nat → OrderInfo → Prop} {place : Account × Nat}
    (h : ∀ key order, t.get key = some order → P key order) (hnew : P place order) :
    ∀ key found, (t.put place order).get key = some found → P key found := by
  intro key found hget
  rw [Table.get_put] at hget
  by_cases hkey : key = place
  · rw [if_pos hkey] at hget
    cases hget
    rwa [hkey]
  · rw [if_neg hkey] at hget
    exact h key found hget

theorem isSome_put {t : Table Account AccountSwapInfo} {account other : Account}
    {info : AccountSwapInfo} (h : (t.get other).isSome ∨ other = account) :
    ((t.put account info).get other).isSome := by
  rw [Table.get_put]
  by_cases hsame : other = account
  · rw [if_pos hsame]
    rfl
  · rw [if_neg hsame]
    exact h.resolve_right hsame

theorem isSome_change {t : Table Account AccountSwapInfo} {account other : Account}
    {f : AccountSwapInfo → AccountSwapInfo} (h : (t.get other).isSome) :
    ((t.change account f).get other).isSome := by
  rw [Table.get_change]
  by_cases hsame : other = account
  · rw [if_pos hsame, Option.isSome_map, ← hsame]
    exact h
  · rwa [if_neg hsame]

theorem SwapMove.orderMove {kind : ChangeKind} {b b' : SwapBook} (h : SwapMove kind b b') :
    OrderMove b b' := by
  cases h with
  | quiet => exact .same rfl rfl fun _ h => h
  | timed => exact .same rfl rfl fun _ h => isSome_put (.inl h)
  | made checked hnew =>
      exact .made hnew (makeOrder_priced checked) rfl (Block.height_lt _) rfl rfl fun _ h =>
        isSome_put h
  | inquired => exact .same rfl rfl fun _ h => isSome_put (.inl h)
  | inquiryAcked =>
      exact .same rfl rfl fun _ h => isSome_change (isSome_change (isSome_put (.inl h)))
  | taken => exact .same rfl rfl fun _ h => h
  | @takeAcked _ ack height swap order hwaiting hswap hstatus horder hunfinished hvalue =>
      refine .changed horder hunfinished (order.filled_sameTerms ack.value height) rfl rfl ?_
      intro account h
      refine isSome_change (isSome_change ?_)
      change ((if _ then _ else _ : Table Account AccountSwapInfo).get account).isSome
      split
      · exact isSome_change h
      · exact h
  | cancelled horder hunfinished =>
      exact .changed horder hunfinished (OrderInfo.cancelled_sameTerms _ _) rfl rfl fun _ h =>
        isSome_change h
  | inquiryNacked => exact .same rfl rfl fun _ h => h
  | takeNacked => exact .same rfl rfl fun _ h => h

-- The index has the orders that are not finished, each under its key.
structure SwapBook.Searchable (b : SwapBook) : Prop where
  indexed : ∀ index, b.orderIndexes.get index = some () ↔
    ∃ order, b.orders.get (index.maker, index.height) = some order ∧ order.finished = false ∧
      order.getIndex index.maker index.height = index
  priced : ∀ key order, b.orders.get key = some order → order.Priced
  bounded : ∀ key order, b.orders.get key = some order → key.2 < 2 ^ 64
  counted : ∀ key order, b.orders.get key = some order → (b.counters.get key.1).isSome

theorem OrderMove.searchable {b b' : SwapBook} (h : b.Searchable) (hmove : OrderMove b b') :
    b'.Searchable := by
  cases hmove with
  | same horders hindexes hcounters =>
      constructor
      · rw [horders, hindexes]
        exact h.indexed
      · rw [horders]
        exact h.priced
      · rw [horders]
        exact h.bounded
      · rw [horders]
        exact fun key order hget => hcounters _ (h.counted key order hget)
  | @made maker height order hnew hpriced hopen hheight horders hindexes hcounters =>
      obtain ⟨hmaker, hplace, -⟩ := hpriced.getIndex_place maker height
      constructor
      · intro index
        rw [horders, hindexes, Table.get_put, Table.get_put]
        by_cases hindex : index = order.getIndex maker height
        · rw [if_pos hindex, hindex, hmaker, hplace, if_pos rfl]
          exact ⟨fun _ => ⟨order, rfl, hopen, rfl⟩, fun _ => rfl⟩
        · rw [if_neg hindex]
          by_cases hkey : (index.maker, index.height) = (maker, height)
          · obtain ⟨hm, hh⟩ := Prod.mk.inj hkey
            rw [if_pos hkey, h.indexed, hkey, hnew]
            constructor
            · rintro ⟨_, hget, -⟩
              cases hget
            · rintro ⟨_, hget, -, hsame⟩
              cases hget
              rw [hm, hh] at hsame
              exact absurd hsame.symm hindex
          · rw [if_neg hkey]
            exact h.indexed index
      · rw [horders]
        exact forall_put h.priced hpriced
      · rw [horders]
        exact forall_put h.bounded hheight
      · rw [horders]
        exact forall_put (fun key found hget => hcounters _ (.inl (h.counted key found hget)))
          (hcounters _ (.inr rfl))
  | @changed maker height order order' horder hopen hterms horders hindexes hcounters =>
      have hpriced := hterms.priced (h.priced _ _ horder)
      obtain ⟨hmaker, hplace, -⟩ := hpriced.getIndex_place maker height
      constructor
      · intro index
        rw [horders, hindexes, Table.get_put]
        by_cases hkey : (index.maker, index.height) = (maker, height)
        · obtain ⟨hm, hh⟩ := Prod.mk.inj hkey
          have hold : b.orderIndexes.get index = some () ↔ order'.getIndex maker height = index := by
            rw [h.indexed, hkey, horder, hm, hh, hterms.index]
            constructor
            · rintro ⟨_, hget, -, hsame⟩
              cases hget
              exact hsame
            · exact fun hsame => ⟨order, rfl, hopen, hsame⟩
          rw [if_pos hkey, hm, hh]
          cases hfinished : order'.finished with
          | true =>
              rw [if_pos rfl, Table.get_del]
              constructor
              · intro hget
                by_cases hindex : index = order'.getIndex maker height
                · rw [if_pos hindex] at hget
                  cases hget
                · rw [if_neg hindex, hold] at hget
                  exact absurd hget.symm hindex
              · rintro ⟨_, hget, hunfinished, -⟩
                cases hget
                rw [hfinished] at hunfinished
                cases hunfinished
          | false =>
              rw [if_neg (by simp), hold]
              constructor
              · exact fun hsame => ⟨order', rfl, hfinished, hsame⟩
              · rintro ⟨_, hget, -, hsame⟩
                cases hget
                exact hsame
        · rw [if_neg hkey, ← h.indexed]
          split
          · rw [Table.get_del, if_neg]
            rintro rfl
            exact hkey (Prod.ext hmaker hplace)
          · rfl
      · rw [horders]
        exact forall_put h.priced hpriced
      · rw [horders]
        exact forall_put h.bounded (h.bounded _ _ horder)
      · rw [horders]
        exact forall_put (fun key found hget => hcounters _ (h.counted key found hget))
          (hcounters _ (h.counted _ _ horder))

theorem OrderMove.keeps {b b' : SwapBook} (hmove : OrderMove b b') {key : Account × Nat}
    (horder : b.orders.get key = some order) :
    ∃ order', b'.orders.get key = some order' ∧ order.SameTerms order' := by
  cases hmove with
  | same horders =>
      rw [horders]
      exact ⟨order, horder, .refl order⟩
  | @made maker height _ hnew _ _ _ horders =>
      rw [horders, Table.get_put]
      by_cases hkey : key = (maker, height)
      · rw [hkey, hnew] at horder
        cases horder
      · rw [if_neg hkey]
        exact ⟨order, horder, .refl order⟩
  | @changed maker height old order' hold _ hterms horders =>
      rw [horders, Table.get_put]
      by_cases hkey : key = (maker, height)
      · rw [hkey, hold] at horder
        cases horder
        exact ⟨order', if_pos hkey, hterms⟩
      · rw [if_neg hkey]
        exact ⟨order, horder, .refl order⟩

end Books

-- The turns of the application: what its actions do to the chains and to the ledger.
inductive AppTurn (env : Env) (content : Block → TokenContent) (blocks : Set Block)
    (s : App TokenLedger) : App TokenLedger → Prop where
  | same : AppTurn env content blocks s s
  | appended {fails : StoreCall → Bool} {refused : TokenCall → Bool} {b : Block} {confirmed : Bool}
      {s' : App TokenLedger} (hb : b ∈ blocks)
      (happend : s.appendBlock_ env (tokenHooks env content) fails refused b confirmed = .ok s') :
      AppTurn env content blocks s s'
  | rolledBack {fails : StoreCall → Bool} {b : Block} {s' : App TokenLedger} (hb : b ∈ blocks)
      (hrollback : s.rollbackBlock_ env (tokenHooks env content) fails b = .ok s') :
      AppTurn env content blocks s s'
  | followed {refused : TokenCall → Bool} {batch : List CrossChainBlockEvents} :
      AppTurn env content blocks s
        { s with ledger := (processCrossChainBlocks ⟨env, s.store, refused⟩ s.ledger batch).ledger }

theorem TokenApp.take_turn {env : Env} {content : Block → TokenContent} {blocks : Set Block}
    {action : TokenAppAction} (s : TokenApp) (hfits : action.Fits blocks) :
    AppTurn env content blocks s.app (s.take env content action).app := by
  cases action with
  | process fails refused block confirmed =>
      change AppTurn env content blocks s.app
        (s.processBlock env content fails refused block confirmed).app
      unfold TokenApp.processBlock
      by_cases hskipped : block.type ∉ (tokenHooks env content).accountTypes ∨
          confirmed = false ∧ BlockWaiting.exists_ s.blockWaiting block.account block.height
      · rw [if_pos hskipped]
        exact .same
      rw [if_neg hskipped]
      dsimp only
      cases happend : s.app.appendBlock_ env (tokenHooks env content) fails refused block
          confirmed with
      | ok app =>
          dsimp only
          split_ifs
          · exact .appended hfits happend
          · exact .appended hfits happend
      | error code =>
          dsimp only
          split_ifs
          all_goals
            simp only [TokenApp.queueWaitings, TokenApp.queued, TokenApp.record_app]
            exact .same
  | rollback fails block =>
      change AppTurn env content blocks s.app
        (s.app.processBlockRollback env (tokenHooks env content) fails block)
      unfold App.processBlockRollback
      by_cases hskipped : block.type ∉ (tokenHooks env content).accountTypes
      · rw [if_pos hskipped]
        exact .same
      rw [if_neg hskipped]
      cases hrollback : s.app.rollbackBlock_ env (tokenHooks env content) fails block with
      | ok app => exact .rolledBack hfits hrollback
      | error code => exact .same
  | follow refused batch =>
      change AppTurn env content blocks s.app (s.processCrossChainBlocks env refused batch).app
      unfold TokenApp.processCrossChainBlocks
      dsimp only
      split
      · exact .followed
      · exact .followed
  | restart => exact .same

-- The blocks that the orders were made with.
section Placement

variable {env : Env} {content : Block → TokenContent} {blocks : Set Block} {block : Block}
  {l l₁ l₂ l' : TokenLedger}

-- An order that was not there before is that of the block.
def OrdersFrom (env : Env) (block : Block) (l l' : TokenLedger) : Prop :=
  ∀ key order, l'.orders.get key = some order →
    (∃ old, l.orders.get key = some old ∧ order.hash = old.hash) ∨
      key = (block.account, block.height) ∧ order.hash = env.hash block

theorem OrdersFrom.of_eq (h : l'.orders = l.orders) : OrdersFrom env block l l' := by
  intro key order hget
  rw [h] at hget
  exact .inl ⟨order, hget, rfl⟩

theorem Operated.ordersFrom {tokenEnv : TokenEnv} {token : ExtensionToken}
    (h : Operated tokenEnv block l token l') : OrdersFrom tokenEnv.toEnv block l l' := by
  have put {place : Account × Nat} {new : OrderInfo} (hput : l'.orders = l.orders.put place new)
      (hnew : (∃ old, l.orders.get place = some old ∧ new.hash = old.hash) ∨
        place = (block.account, block.height) ∧ new.hash = tokenEnv.hash block) :
      OrdersFrom tokenEnv.toEnv block l l' := by
    intro key order hget
    rw [hput, Table.get_put] at hget
    by_cases hkey : key = place
    · rw [if_pos hkey] at hget
      cases hget
      rw [hkey]
      exact hnew
    · rw [if_neg hkey] at hget
      exact .inl ⟨order, hget, rfl⟩
  cases h with
  | @make make plan hplan =>
      obtain ⟨main, horder⟩ := (swapMakePlan_ok hplan).order
      have hhash : plan.order.hash = tokenEnv.hash block := by
        rw [horder]
        rfl
      exact put rfl (.inr ⟨rfl, hhash⟩)
  | @takeAck ack plan hplan hwant =>
      have hacks := swapTakeAckPlan_ok hplan
      exact put rfl (.inl ⟨_, hacks.order, (plan.order.filled_sameTerms _ _).hash⟩)
  | @cancel orderHeight plan hplan =>
      have hcancels := swapCancelPlan_ok hplan
      exact put rfl (.inl ⟨_, hcancels.order, rfl⟩)
  | _ => exact .of_eq rfl

theorem PurgedInquiries.orders {main : Account} {height : Nat}
    (h : PurgedInquiries main height l l') : l'.orders = l.orders :=
  NackedInquiries.frame (fun _ _ _ _ _ => rfl) h

theorem PurgedTakes.orders {tokenEnv : TokenEnv} (h : PurgedTakes tokenEnv block l l') :
    l'.orders = l.orders :=
  NackedTakes.frame (fun _ _ _ => rfl) h

theorem Settled.orders {tokenEnv : TokenEnv} {token : ExtensionToken}
    (h : Settled tokenEnv block l token l₁ l') : l'.orders = l₁.orders := by
  cases h with
  | direct => rfl
  | inquiry => rfl
  | lateInquiry hplan hsome hpurged => exact hpurged.orders
  | take => rfl
  | lateTake hplan hsome hpurged => exact hpurged.orders

theorem Appended.ordersFrom {tokenEnv : TokenEnv} {content : TokenContent} {confirmed : Bool}
    (h : Appended tokenEnv block content confirmed l l₁ l₂ l') :
    OrdersFrom tokenEnv.toEnv block l l' := by
  have hprocessed : OrdersFrom tokenEnv.toEnv block l l₁ := by
    cases h.processed with
    | none => exact .of_eq rfl
    | reentry => exact .of_eq rfl
    | status => exact .of_eq rfl
    | refused => exact .of_eq rfl
    | operated hawaits hreads hoperated hsettled =>
        intro key order hget
        rw [hsettled.orders] at hget
        exact hoperated.ordersFrom key order hget
  intro key order hget
  rw [h.takes.orders, h.inquiries.orders] at hget
  exact hprocessed key order hget

-- The orders go on with their terms, and the index goes on with the orders.
structure OrdersKept (l l' : TokenLedger) : Prop where
  covered : l'.SwapsCovered
  book : l'.swapBook.Searchable
  terms : ∀ key order, l.orders.get key = some order →
    ∃ order', l'.orders.get key = some order' ∧ order.SameTerms order'

theorem OrdersKept.refl (hcovered : l.SwapsCovered) (hbook : l.swapBook.Searchable) :
    OrdersKept l l :=
  ⟨hcovered, hbook, fun _ order hget => ⟨order, hget, .refl order⟩⟩

theorem OrdersKept.of_changes {kinds : ChangeKind → Prop} (hcovered : l.SwapsCovered)
    (hbook : l.swapBook.Searchable) (h : TokenChanges env kinds l l') : OrdersKept l l' := by
  refine TokenChanges.keep (P := OrdersKept l) ?_ h (.refl hcovered hbook)
  intro kind l₁ l₂ _ hkept hchange
  have hmove := (hchange.swapMove hkept.covered).orderMove
  refine ⟨hchange.swapsCovered hkept.covered, hmove.searchable hkept.book, fun key order hget => ?_⟩
  obtain ⟨order₁, hget₁, hterms₁⟩ := hkept.terms key order hget
  obtain ⟨order₂, hget₂, hterms₂⟩ := hmove.keeps hget₁
  exact ⟨order₂, hget₂, hterms₁.trans hterms₂⟩

theorem follow_orders {app : Store} {fails : TokenCall → Bool}
    {batch : List CrossChainBlockEvents} :
    (l.take env (.follow app fails batch)).orders = l.orders := by
  have hchanges : TokenChanges env (fun kind => kind = .event ∨ kind = .headed) l
      (l.take env (.follow app fails batch)) := follow_changes (.inl rfl) (.inr rfl)
  refine TokenChanges.keep (P := fun l' => l'.orders = l.orders) ?_ hchanges rfl
  intro kind l₁ l₂ hkind hsame hchange
  rw [← hsame]
  cases hchange with
  | event => exact congrArg SwapBook.orders (event_swapBook _)
  | headed => rfl
  | _ => rcases hkind with hkind | hkind <;> cases hkind

-- What a search relies on: the chains, and each order in the index and with its block.
structure App.Searchable (env : Env) (blocks : Set Block) (s : App TokenLedger) : Prop where
  shows : ∃ chains, ShowsChains env blocks s.store chains
  covered : s.ledger.SwapsCovered
  book : s.ledger.swapBook.Searchable
  placed : ∀ key order, s.ledger.orders.get key = some order → ∃ b, b.account = key.1 ∧
    b.height = key.2 ∧ env.hash b = order.hash ∧ ConfirmedAt s.store key.1 key.2 ∧
      s.store.blockGet order.hash = some b

theorem App.Searchable.empty : App.Searchable env blocks ⟨.empty, .empty⟩ where
  shows := ⟨_, .empty⟩
  covered := .empty
  book := by
    constructor
    · intro index
      constructor
      · intro hget
        cases hget
      · rintro ⟨_, hget, -⟩
        cases hget
    all_goals
      intro key order hget
      cases hget
  placed key order hget := by cases hget

-- What was confirmed stays, and so do the blocks of the orders.
theorem App.Searchable.keep_placed {s s' : App TokenLedger} (h : s.Searchable env blocks)
    (hkept : Kept env s.store s'.store) {key : Account × Nat} {order : OrderInfo}
    (hget : s.ledger.orders.get key = some order) : ∃ b, b.account = key.1 ∧ b.height = key.2 ∧
      env.hash b = order.hash ∧ ConfirmedAt s'.store key.1 key.2 ∧
        s'.store.blockGet order.hash = some b := by
  obtain ⟨b, haccount, hheight, hhash, hconfirmed, hblock⟩ := h.placed key order hget
  obtain ⟨hnow, hblocks⟩ := hkept _ _ hconfirmed
  have hfound := hblocks b haccount hheight
  rw [hhash] at hfound
  exact ⟨b, haccount, hheight, hhash, hnow, hfound hblock⟩

theorem App.Searchable.turn {s s' : App TokenLedger} (happart : Apart env blocks)
    (h : s.Searchable env blocks) (hturn : AppTurn env content blocks s s') :
    s'.Searchable env blocks ∧ OrdersKept s.ledger s'.ledger := by
  have hsame : OrdersKept s.ledger s.ledger := .refl h.covered h.book
  obtain ⟨chains, hshows⟩ := h.shows
  cases hturn with
  | same => exact ⟨h, hsame⟩
  | @appended fails refused b confirmed _ hb happend =>
      rcases App.appendBlock_ok happend with
        ⟨hentered, -, hafter⟩ | ⟨-, ⟨info, hconfirmed, hfresh⟩, hledger⟩
      · obtain ⟨l₁, l₂, happended⟩ := afterBlockAppend_turns (tokenHooks_turns hafter)
        have hkept : OrdersKept s.ledger s'.ledger :=
          .of_changes h.covered h.book
            (happended.changes rfl (happart.height_ne b hb) fun _ _ _ => (trivial : True))
        have hstore := hshows.kept_entered happart hb hentered
        have hnext := hshows.entered happart hb hentered
        refine ⟨⟨⟨_, hnext⟩, hkept.covered, hkept.book, fun key order hget => ?_⟩, hkept⟩
        rcases happended.ordersFrom key order hget with ⟨old, hold, hhash⟩ | ⟨hkey, hhash⟩
        · rw [hhash]
          exact h.keep_placed hstore hold
        · rcases happended.confirmed with rfl | ⟨-, hledger⟩
          · have hblock : s'.store.blockGet (env.hash b) = some b := by
              rw [hnext.blockGet_iff, Function.update_self]
              exact List.mem_cons_self
            obtain ⟨own, hown, -, hset, -⟩ := hentered.info_own
            have hnow : ConfirmedAt s'.store b.account b.height := by
              refine ⟨own, hown, (confirmed_iff (hnext.valid happart hown)).mpr ?_⟩
              rw [hset rfl]
              exact ⟨happart.height_ne b hb, Nat.le_refl _⟩
            rw [hkey, hhash]
            exact ⟨b, rfl, rfl, rfl, hnow, hblock⟩
          · rw [hledger] at hget
            exact h.keep_placed hstore hget
      · rw [hledger]
        refine ⟨⟨⟨_, hshows.settled hconfirmed⟩, ?_, ?_, fun key order hget => ?_⟩, hsame⟩
        · rw [hledger]
          exact h.covered
        · rw [hledger]
          exact h.book
        · rw [hledger] at hget
          exact h.keep_placed (hshows.kept_settled happart hb hconfirmed hfresh) hget
  | rolledBack hb hrollback =>
      obtain ⟨rest, hrolled⟩ := rollbackBlock_rolledBack happart hshows hb hrollback
      -- the calls of a handler are not noted here
      have hbare : RolledBack env blocks chains _ ⟨s.store, (s.ledger, ([] : List HandlerCall))⟩
          ⟨s'.store, (s'.ledger, [])⟩ rest :=
        ⟨hrolled.chain, hrolled.shows, by rw [hrolled.ledger], hrolled.unconfirmed,
          hrolled.confirmed⟩
      rw [hrolled.ledger]
      refine ⟨⟨⟨_, hrolled.shows⟩, ?_, ?_, fun key order hget => ?_⟩, hsame⟩
      · rw [hrolled.ledger]
        exact h.covered
      · rw [hrolled.ledger]
        exact h.book
      · rw [hrolled.ledger] at hget
        exact h.keep_placed (hbare.kept hshows) hget
  | @followed refused batch =>
      have hchanges : TokenChanges env (fun _ => True) s.ledger
          (s.ledger.take env (.follow s.store refused batch)) := follow_changes trivial trivial
      have hkept : OrdersKept s.ledger (s.ledger.take env (.follow s.store refused batch)) :=
        .of_changes h.covered h.book hchanges
      refine ⟨⟨⟨_, hshows⟩, hkept.covered, hkept.book, fun key order hget => ?_⟩, hkept⟩
      have hold : (s.ledger.take env (.follow s.store refused batch)).orders.get key =
        some order := hget
      rw [follow_orders] at hold
      exact h.keep_placed (.refl _) hold

end Placement

-- The keys of the index.
section Keys

variable {index other : OrderIndex}

def OrderIndex.place (index : OrderIndex) : Nat := Scans.KeyTable.place index.key

def OrderIndex.bytes (index : OrderIndex) : List UInt8 := Scans.StoreKey.serialize index.key

theorem TokenKey.deserialize_inverts :
    Inverts Scans.TokenKey.deserialize Scans.TokenKey.serialize fun _ => True := by
  refine .congr (?_ : Inverts _ (fun token : TokenKey =>
    streamWrite token.address ++ (streamWrite token.chain ++ [])) _)
    (fun token _ => by rw [List.append_nil]; rfl) fun _ => Iff.rfl
  refine .bind TokenKey.address streamRead_inverts (fun _ _ => trivial) fun address _ => ?_
  refine .bind TokenKey.chain streamRead_inverts (fun _ _ => trivial) fun chain _ => ?_
  refine .done ⟨⟨trivial, rfl⟩, rfl⟩ ?_
  rintro token ⟨⟨-, rfl⟩, rfl⟩
  rfl

theorem Scans.OrderIndex.deserialize_inverts :
    Inverts Scans.OrderIndex.deserialize Scans.OrderIndex.serialize fun _ => True := by
  refine .congr (?_ : Inverts _ (fun key : Scans.OrderIndex =>
    Scans.TokenKey.serialize key.tokenOffer ++ (streamWrite key.typeOffer ++
      (Scans.TokenKey.serialize key.tokenWant ++ (streamWrite key.typeWant ++
        (streamWrite key.idOffer ++ (streamWrite key.idWant ++ (streamWrite key.rate ++
          (streamWrite key.maker ++ (streamWrite key.height ++ []))))))))) _)
    (fun key _ => by rw [List.append_nil]; rfl) fun _ => Iff.rfl
  refine .bind (fun key : Scans.OrderIndex => key.tokenOffer) TokenKey.deserialize_inverts
    (fun _ _ => trivial) fun tokenOffer _ => ?_
  refine .bind (fun key : Scans.OrderIndex => key.typeOffer) streamRead_inverts
    (fun _ _ => trivial) fun typeOffer _ => ?_
  refine .bind (fun key : Scans.OrderIndex => key.tokenWant) TokenKey.deserialize_inverts
    (fun _ _ => trivial) fun tokenWant _ => ?_
  refine .bind (fun key : Scans.OrderIndex => key.typeWant) streamRead_inverts
    (fun _ _ => trivial) fun typeWant _ => ?_
  refine .bind Scans.OrderIndex.idOffer streamRead_inverts (fun _ _ => trivial) fun idOffer _ => ?_
  refine .bind Scans.OrderIndex.idWant streamRead_inverts (fun _ _ => trivial) fun idWant _ => ?_
  refine .bind Scans.OrderIndex.rate streamRead_inverts (fun _ _ => trivial) fun rate _ => ?_
  refine .bind Scans.OrderIndex.maker streamRead_inverts (fun _ _ => trivial) fun maker _ => ?_
  refine .bind Scans.OrderIndex.height streamRead_inverts (fun _ _ => trivial) fun height _ => ?_
  refine .done (by simp) ?_
  rintro key ⟨⟨⟨⟨⟨⟨⟨⟨⟨-, rfl⟩, rfl⟩, rfl⟩, rfl⟩, rfl⟩, rfl⟩, rfl⟩, rfl⟩, rfl⟩
  rfl

theorem OrderIndex.get_bytes (index : OrderIndex) :
    TokenRpcHandler.orderIndexGet index.bytes = .ok index.key := by
  unfold TokenRpcHandler.orderIndexGet
  rw [show index.bytes = Scans.OrderIndex.serialize index.key from rfl,
    ByteTables.parse_write Scans.OrderIndex.deserialize_inverts trivial]
  rfl

theorem OrderIndex.height_key (hheight : index.height < 2 ^ 64) :
    index.key.height.toNat = index.height := by
  change (UInt64.ofNat index.height).toNat = index.height
  rw [UInt64.toNat_ofNat', Nat.mod_eq_of_lt hheight]

theorem TokenType.byte_inj {type other : TokenType} : type.byte = other.byte ↔ type = other := by
  cases type <;> cases other <;> decide

theorem OrderIndex.key_inj (hheight : index.height < 2 ^ 64) (hother : other.height < 2 ^ 64)
    (h : index.key = other.key) : index = other := by
  have hplace := congrArg (fun key : Scans.OrderIndex => key.height.toNat) h
  rw [height_key hheight, height_key hother] at hplace
  have htypeOffer : index.typeOffer.byte = other.typeOffer.byte :=
    congrArg (fun key : Scans.OrderIndex => key.typeOffer) h
  have htypeWant : index.typeWant.byte = other.typeWant.byte :=
    congrArg (fun key : Scans.OrderIndex => key.typeWant) h
  rw [TokenType.byte_inj] at htypeOffer htypeWant
  obtain ⟨⟩ := index
  obtain ⟨⟩ := other
  simp only [OrderIndex.key, Scans.OrderIndex.mk.injEq, Scans.OrderPair.mk.injEq] at h
  simp only [OrderIndex.mk.injEq]
  exact ⟨h.1.1, htypeOffer, h.1.2.2.1, htypeWant, h.2.1, h.2.2.1, h.2.2.2.1, h.2.2.2.2.1, hplace⟩

theorem OrderIndex.place_inj (hheight : index.height < 2 ^ 64) (hother : other.height < 2 ^ 64)
    (h : index.place = other.place) : index = other := by
  have hlength : index.bytes.length = other.bytes.length :=
    (Scans.StoreKey.serialize_length _).trans (Scans.StoreKey.serialize_length _).symm
  have hbytes := Scans.fromBigEndian_inj hlength h
  exact key_inj hheight hother (Scans.OrderIndex.deserialize_inverts.injective trivial trivial hbytes)

end Keys

-- What a limit asks of an order of the pair.
def OrderLimit.Admits (order : OrderInfo) : OrderLimit → Prop
  | .none => True
  | .fromToken value =>
    if order.fungiblePair then order.left = value ∨ order.minOffer ≤ value ∧ value ≤ order.left
    else order.valueOffer = value
  | .toToken value =>
    if order.fungiblePair then
      let offered := value.toNat * order.valueOffer.toNat / order.valueWant.toNat
      order.left.toNat = offered ∨ order.minOffer.toNat ≤ offered ∧ offered ≤ order.left.toNat
    else order.valueWant = value

-- An order that a request asks for at some moment.
structure OrderSearchRequest.Wants (request : OrderSearchRequest) (limit : OrderLimit) (now : UInt64)
    (l : TokenLedger) (maker : Account) (height : Nat) (order : OrderInfo) : Prop where
  found : l.orders.get (maker, height) = some order
  unfinished : order.finished = false
  pair : order.tokenOffer = request.fromToken ∧ order.typeOffer = request.fromType ∧
    order.tokenWant = request.toToken ∧ order.typeWant = request.toType
  admitted : limit.Admits order
  active : request.inactiveToo = true ∨ ¬UInt64.ofNat order.timeout < now ∧
    ∃ swaps, l.accountSwaps.get maker = some swaps ∧ swaps.inactive now = false

-- What is listed is what the ledger and the chains say at that moment.
structure OrderEntry.Shows (env : Env) (s : App TokenLedger) (entry : OrderEntry) : Prop where
  order : s.ledger.orders.get (entry.maker, entry.height) = some entry.order
  swaps : s.ledger.accountSwaps.get entry.maker = some entry.swaps
  block : ∃ b, b.account = entry.maker ∧ b.height = entry.height ∧ env.hash b = entry.order.hash ∧
    b.timestamp = entry.createdAt
  head : ∃ info head, s.store.accountInfoGet entry.maker = some info ∧
    s.store.blockGet info.head = some head ∧ head.credit = entry.credit

def OrderEntry.index (entry : OrderEntry) : OrderIndex := entry.order.getIndex entry.maker entry.height

namespace TokenRpcHandler

variable {env : Env} {blocks : Set Block} {s : App TokenLedger} {now : UInt64}
  {request : OrderSearchRequest} {limit : OrderLimit} {maker : Account} {height : Nat}
  {order : OrderInfo}

theorem fitsLimit_ok (limit : OrderLimit) (hpriced : order.Priced) (hoffer : order.typeOffer = request.fromType)
    (hwant : order.typeWant = request.toType) :
    ∃ fits, request.fitsLimit limit order = .ok fits ∧ (fits = true ↔ limit.Admits order) := by
  have hpair : order.fungiblePair = true ↔ request.fromType = .t20 ∧ request.toType = .t20 := by
    rw [← hoffer, ← hwant]
    simp [OrderInfo.fungiblePair]
  have hunique : ¬order.fungiblePair = true →
      request.fromType = .t721 ∨ request.toType = .t721 := by
    intro hnot
    rw [hpair, ← hoffer, ← hwant] at hnot
    rw [← hoffer, ← hwant]
    have := hpriced.offer
    have := hpriced.want
    cases horderOffer : order.typeOffer <;> cases horderWant : order.typeWant <;> simp_all
  unfold OrderSearchRequest.fitsLimit OrderLimit.Admits
  cases limit with
  | none => exact ⟨true, rfl, by simp⟩
  | fromToken value =>
      dsimp only
      by_cases hfungible : order.fungiblePair = true
      · obtain ⟨h₁, h₂⟩ := hpair.mp hfungible
        rw [if_pos hfungible, h₁, h₂]
        refine ⟨_, rfl, ?_⟩
        simp [BitVec.not_lt]
      · rw [if_neg hfungible, if_pos (hunique hfungible)]
        exact ⟨_, rfl, decide_eq_true_iff⟩
  | toToken value =>
      dsimp only
      by_cases hfungible : order.fungiblePair = true
      · obtain ⟨h₁, h₂⟩ := hpair.mp hfungible
        have hvalue := (hpriced.values hfungible).2
        have hne : ¬wide order.valueWant = 0 := by
          intro hzero
          have hnat := congrArg BitVec.toNat hzero
          rw [wide_toNat, Scans.zero_union] at hnat
          exact hvalue (BitVec.eq_of_toNat_eq (hnat.trans (Scans.zero_union 256).symm))
        rw [if_pos hfungible, h₁, h₂, if_neg (by simp), if_pos ⟨rfl, rfl⟩, returnIf_pass hne]
        refine ⟨_, rfl, ?_⟩
        have hoffered : (wide value * wide order.valueOffer / wide order.valueWant).toNat =
            value.toNat * order.valueOffer.toNat / order.valueWant.toNat := by
          rw [BitVec.toNat_udiv, wide_mul_toNat, wide_toNat]
        simp only [Bool.or_eq_true, Bool.not_eq_true', Bool.or_eq_false_iff, decide_eq_true_eq,
          decide_eq_false_iff_not, gt_iff_lt, BitVec.not_lt, BitVec.le_def, wide_toNat, hoffered,
          ← BitVec.toNat_inj]
      · rw [if_neg hfungible, if_pos (hunique hfungible)]
        exact ⟨_, rfl, decide_eq_true_iff⟩

theorem orderShown_ok (now : UInt64) (request : OrderSearchRequest) (hopen : order.finished = false)
    (hcounted : (s.ledger.accountSwaps.get maker).isSome) :
    ∃ shown, orderShown s now request maker order = .ok shown ∧ (shown = true ↔
      request.inactiveToo = true ∨ ¬UInt64.ofNat order.timeout < now ∧
        ∃ swaps, s.ledger.accountSwaps.get maker = some swaps ∧ swaps.inactive now = false) := by
  obtain ⟨swaps, hswaps⟩ := Option.isSome_iff_exists.mp hcounted
  unfold orderShown
  by_cases hall : request.inactiveToo = true
  · rw [if_pos hall]
    exact ⟨true, rfl, by simp [hall]⟩
  rw [if_neg hall, hopen, if_neg (by simp)]
  by_cases htimeout : UInt64.ofNat order.timeout < now
  · rw [if_pos htimeout]
    exact ⟨false, rfl, by simp [hall, htimeout]⟩
  rw [if_neg htimeout]
  unfold makerShown
  rw [hswaps]
  refine ⟨!swaps.inactive now, rfl, ?_⟩
  simp [hall, htimeout]

theorem orderListed_ok (now : UInt64) (limit : OrderLimit) (hpriced : order.Priced)
    (hoffer : order.typeOffer = request.fromType)
    (hwant : order.typeWant = request.toType) (hopen : order.finished = false)
    (hcounted : (s.ledger.accountSwaps.get maker).isSome) :
    ∃ listed, orderListed s now request limit maker order = .ok listed ∧ (listed = true ↔
      limit.Admits order ∧ (request.inactiveToo = true ∨ ¬UInt64.ofNat order.timeout < now ∧
        ∃ swaps, s.ledger.accountSwaps.get maker = some swaps ∧ swaps.inactive now = false)) := by
  obtain ⟨shown, hshown, hshownIff⟩ := orderShown_ok now request hopen hcounted
  obtain ⟨fits, hfits, hfitsIff⟩ := fitsLimit_ok limit hpriced hoffer hwant
  unfold orderListed
  rw [hshown, Except.ok_bind, ← hshownIff, ← hfitsIff]
  cases shown with
  | false => exact ⟨false, rfl, by simp⟩
  | true => exact ⟨fits, hfits, by simp⟩

theorem makeOrderPtree_ok (happart : Apart env blocks) (h : s.Searchable env blocks)
    (hget : s.ledger.orders.get (maker, height) = some order) :
    ∃ entry, makeOrderPtree s maker height = .ok entry ∧ entry.maker = maker ∧
      entry.height = height ∧ entry.order = order ∧ entry.Shows env s := by
  obtain ⟨b, haccount, hheight, hhash, -, hblock⟩ := h.placed _ _ hget
  obtain ⟨swaps, hswaps⟩ := Option.isSome_iff_exists.mp (h.book.counted _ _ hget)
  obtain ⟨chains, hshows⟩ := h.shows
  rw [← hhash, hshows.blockGet_iff, haccount] at hblock
  obtain ⟨head, rest, hchain⟩ := List.exists_cons_of_ne_nil (List.ne_nil_of_mem hblock)
  obtain ⟨info, hinfo, -, hhead, -⟩ := hshows.info_of_head happart hchain
  have hheadGet : s.store.blockGet info.head = some head := by
    rw [hhead, Store.blockGet, hshows.head_get hchain]
    rfl
  have hfound : s.store.blockGet order.hash = some b := by
    rw [← hhash, hshows.blockGet_iff, haccount]
    exact hblock
  refine ⟨⟨maker, height, order, swaps, head.credit, b.timestamp⟩, ?_, rfl, rfl, rfl,
    hget, hswaps, ⟨b, haccount, hheight, hhash, rfl⟩, info, head, hinfo, hheadGet, rfl⟩
  have hswaps' : s.ledger.accountSwaps.get maker = some swaps := hswaps
  have hinfo' : s.store.accountInfoGet maker = some info := hinfo
  unfold makeOrderPtree
  rw [orReturn_pass hget, orReturn_pass hfound, orReturn_pass hinfo', orReturn_pass hheadGet,
    orReturn_pass hswaps']
  rfl

-- One round, at an index of the pair.
theorem searchEntry_ok (now : UInt64) (limit : OrderLimit) (happart : Apart env blocks)
    (h : s.Searchable env blocks)
    (hget : s.ledger.orders.get (maker, height) = some order) (hopen : order.finished = false)
    (hpair : order.tokenOffer = request.fromToken ∧ order.typeOffer = request.fromType ∧
      order.tokenWant = request.toToken ∧ order.typeWant = request.toType) :
    ∃ found, searchEntry s now request limit maker height = .ok found ∧
      (found = none ↔ ¬request.Wants limit now s.ledger maker height order) ∧
      ∀ entry, found = some entry → entry.maker = maker ∧ entry.height = height ∧
        entry.order = order ∧ entry.Shows env s := by
  obtain ⟨listed, hlisted, hlistedIff⟩ := orderListed_ok now limit
    (h.book.priced _ _ hget) hpair.2.1 hpair.2.2.2 hopen (h.book.counted _ _ hget)
  have hwants : request.Wants limit now s.ledger maker height order ↔ listed = true := by
    rw [hlistedIff]
    exact ⟨fun hw => ⟨hw.admitted, hw.active⟩, fun hw => ⟨hget, hopen, hpair, hw.1, hw.2⟩⟩
  unfold searchEntry
  rw [orReturn_pass hget, hlisted, Except.ok_bind, hwants]
  cases listed with
  | false =>
      refine ⟨none, rfl, by simp, fun entry hsome => ?_⟩
      cases hsome
  | true =>
      obtain ⟨entry, hentry, hmaker, hheight, horder, hshows⟩ := makeOrderPtree_ok happart h hget
      rw [if_pos rfl, hentry]
      refine ⟨some entry, rfl, by simp, fun other hsome => ?_⟩
      cases hsome
      exact ⟨hmaker, hheight, horder, hshows⟩

-- The loop over the entries up to its end, if no round of it fails.
theorem searchLoop_ok {f : List UInt8 → Option OrderEntry} {front n : Scans.Iterator}
    (hround : ∀ bytes ∈ front, searchRound s now request limit bytes = .ok (f bytes))
    (hfront : ∀ bytes ∈ front, n.head? ≠ some bytes) (count : Nat) :
    ∃ more, searchLoop s now request limit n (front ++ n) count =
        .ok ((front.filterMap f).take count, more) ∧
      (more = false → (front.filterMap f).length ≤ count) ∧
      (more = true → ((front.filterMap f).take count).length = count) := by
  induction front generalizing count with
  | nil =>
      rw [List.nil_append]
      cases count with
      | zero =>
          refine ⟨false, ?_, fun _ => Nat.le_refl _, fun h => (by cases h)⟩
          rw [searchLoop, decide_eq_false (not_not_intro rfl)]
          rfl
      | succ count =>
          refine ⟨false, ?_, fun _ => Nat.zero_le _, fun h => (by cases h)⟩
          cases n with
          | nil =>
              rw [searchLoop, if_pos rfl]
              rfl
          | cons bytes rest =>
              rw [searchLoop, List.head?_cons, if_pos rfl]
              rfl
  | cons bytes front ih =>
      obtain ⟨hbytes, hrounds⟩ := List.forall_mem_cons.mp hround
      obtain ⟨hne, hrest⟩ := List.forall_mem_cons.mp hfront
      rw [List.cons_append]
      cases count with
      | zero =>
          refine ⟨true, ?_, fun h => (by cases h), fun _ => rfl⟩
          rw [searchLoop, List.head?_cons, decide_eq_true (Ne.symm hne)]
          rfl
      | succ count =>
          rw [searchLoop, if_neg hne, hbytes, Except.ok_bind]
          cases hf : f bytes with
          | none =>
              rw [List.filterMap_cons_none hf]
              exact ih hrounds hrest (count + 1)
          | some entry =>
              obtain ⟨more, hloop, hall, hfull⟩ := ih hrounds hrest count
              rw [List.filterMap_cons_some hf, List.take_succ_cons]
              refine ⟨more, ?_, fun h => Nat.succ_le_succ (hall h), fun h => ?_⟩
              · dsimp only
                rw [hloop]
                rfl
              · rw [List.length_cons, hfull h]

end TokenRpcHandler

-- The index as a list that is ordered by the places of its keys.
section Range

variable {env : Env} {blocks : Set Block} {s : App TokenLedger} {request : OrderSearchRequest}
  {limit : OrderLimit}

theorem mem_orderTables {l : TokenLedger} {bytes : List UInt8} :
    bytes ∈ l.orderTables.orderIndex.keys ↔
      ∃ index, l.orderIndexes.get index = some () ∧ index.bytes = bytes := by
  change bytes ∈ l.orderIndexes.keys.image OrderIndex.bytes ↔ _
  rw [Finset.mem_image]
  apply exists_congr
  intro index
  rw [Table.mem_keys]
  exact and_congr_left fun _ => ⟨fun ⟨_, h⟩ => h, fun h => ⟨(), h⟩⟩

theorem byte_lt (type : TokenType) : (type.byte + 1).toNat = type.byte.toNat + 1 := by
  cases type <;> decide

-- The places that a request scans are those of its pair, and of its id if it has one.
structure OrderSearchRequest.Scans (request : OrderSearchRequest) (limit : OrderLimit)
    (lower upper : Nat) : Prop where
  le : lower ≤ upper
  first : ∀ s, request.order = none →
    TokenRpcHandler.searchFrom s request limit = .ok (s.ledger.orderTables.orderIndex.at_ lower)
  last : ∀ s, TokenRpcHandler.searchTo s request limit = s.ledger.orderTables.orderIndex.at_ upper
  exact : ∀ key : Scans.OrderIndex,
    lower ≤ Scans.KeyTable.place key ∧ Scans.KeyTable.place key < upper ↔
      key.toOrderPair = request.pair ∧ ∀ id, request.idLimit limit = some id → key.idOffer = id

theorem orderIndexIdUpperBound_eq (t : Scans.TokenTables) (id : TokenValue) :
    t.orderIndexIdUpperBound request.pair id = t.orderIndex.at_
      (((request.pair.number * 256 + request.pair.typeWant.toNat) * 256 ^ 32 + id.toNat + 1) *
        256 ^ 136) := by
  have hwant : (request.pair.typeWant + 1).toNat = request.pair.typeWant.toNat + 1 :=
    byte_lt request.toType
  unfold Scans.TokenTables.orderIndexIdUpperBound
  rcases Scans.next_union id with ⟨hzero, hlast⟩ | ⟨hne, hnext⟩
  · rw [if_neg (not_not_intro hzero), Scans.TokenTables.orderIndexUpperBound_eq, hwant]
    refine congrArg _ ?_
    omega
  · rw [if_pos hne, Scans.TokenTables.orderIndexIdLowerBound_eq, hnext, Nat.add_assoc]

theorem OrderSearchRequest.exists_scans (request : OrderSearchRequest) (limit : OrderLimit) :
    ∃ lower upper, request.Scans limit lower upper := by
  have hwant : (request.pair.typeWant + 1).toNat = request.pair.typeWant.toNat + 1 :=
    byte_lt request.toType
  cases hid : request.idLimit limit with
  | none =>
      refine ⟨(request.pair.number * 256 + request.pair.typeWant.toNat) * 256 ^ 168,
        (request.pair.number * 256 + request.pair.typeWant.toNat + 1) * 256 ^ 168, by omega,
        fun s hnone => ?_, fun s => ?_, fun key => ?_⟩
      · unfold TokenRpcHandler.searchFrom
        rw [hnone, hid]
        exact congrArg Except.ok (Scans.TokenTables.orderIndexLowerBound_eq _ _)
      · unfold TokenRpcHandler.searchTo
        rw [hid, Nat.add_assoc, ← hwant]
        exact Scans.TokenTables.orderIndexUpperBound_eq _ _
      · rw [← Scans.pair_iff, hid]
        exact ⟨fun h => ⟨h, fun _ hsome => (by cases hsome)⟩, fun h => h.1⟩
  | some id =>
      refine ⟨((request.pair.number * 256 + request.pair.typeWant.toNat) * 256 ^ 32 + id.toNat) *
          256 ^ 136,
        ((request.pair.number * 256 + request.pair.typeWant.toNat) * 256 ^ 32 + id.toNat + 1) *
          256 ^ 136, by omega, fun s hnone => ?_, fun s => ?_, fun key => ?_⟩
      · unfold TokenRpcHandler.searchFrom
        rw [hnone, hid]
        exact congrArg Except.ok (Scans.TokenTables.orderIndexIdLowerBound_eq _ _ _)
      · unfold TokenRpcHandler.searchTo
        rw [hid]
        exact orderIndexIdUpperBound_eq _ id
      · rw [← Scans.pair_id_iff, hid]
        apply and_congr_right
        intro _
        exact ⟨fun h other hsome => (by cases hsome; exact h), fun h => h id rfl⟩

-- Where a page begins: with the first order of the pair, or right after an order of it.
inductive OrderSearchRequest.Starts (request : OrderSearchRequest) (limit : OrderLimit)
    (l : TokenLedger) : Nat → Prop where
  | first (hnone : request.order = none) : Starts request limit l 0
  | after {maker : Account} {height : Nat} {order : OrderInfo}
      (hsome : request.order = some (maker, height))
      (hget : l.orders.get (maker, height) = some order)
      (hcheck : request.checkOrder limit (order.getIndex maker height) = true) :
      Starts request limit l ((order.getIndex maker height).place + 1)

-- The index of an order that is asked for.
def OrderSearchRequest.WantsIndex (request : OrderSearchRequest) (limit : OrderLimit) (now : UInt64)
    (l : TokenLedger) (index : OrderIndex) : Prop :=
  ∃ order, request.Wants limit now l index.maker index.height order ∧
    order.getIndex index.maker index.height = index

variable {now : UInt64} {index : OrderIndex} {order : OrderInfo} {lower upper cursor : Nat}

theorem OrderIndex.pair_iff : index.key.toOrderPair = request.pair ↔
    index.tokenOffer = request.fromToken ∧ index.typeOffer = request.fromType ∧
      index.tokenWant = request.toToken ∧ index.typeWant = request.toType := by
  rw [← TokenType.byte_inj, ← TokenType.byte_inj]
  exact Scans.OrderPair.mk.injEq .. ▸ Iff.rfl

theorem getIndex_idOffer (hwant : order.typeWant ≠ .invalid) (htype : order.typeOffer = .t721)
    (maker : Account) (height : Nat) : (order.getIndex maker height).idOffer = order.valueOffer := by
  unfold OrderInfo.getIndex
  rw [htype]
  cases hwantType : order.typeWant with
  | invalid => exact absurd hwantType hwant
  | t20 => rfl
  | t721 => rfl

-- What is asked for is scanned.
theorem OrderSearchRequest.WantsIndex.scanned (h : s.Searchable env blocks)
    (hscans : request.Scans limit lower upper)
    (hwants : request.WantsIndex limit now s.ledger index) :
    s.ledger.orderIndexes.get index = some () ∧ lower ≤ index.place ∧ index.place < upper := by
  obtain ⟨order, hw, hindex⟩ := hwants
  refine ⟨(h.book.indexed index).mpr ⟨order, hw.found, hw.unfinished, hindex⟩, ?_⟩
  have hpriced := h.book.priced _ _ hw.found
  obtain ⟨-, -, htokenOffer, htypeOffer, htokenWant, htypeWant⟩ :=
    hpriced.getIndex_place index.maker index.height
  rw [hindex] at htokenOffer htypeOffer htokenWant htypeWant
  refine (hscans.exact index.key).mpr ⟨OrderIndex.pair_iff.mpr ?_, fun id hid => ?_⟩
  · rw [htokenOffer, htypeOffer, htokenWant, htypeWant]
    exact hw.pair
  · have hadmits := hw.admitted
    cases limit with
    | none => cases hid
    | toToken value => cases hid
    | fromToken value =>
        unfold OrderSearchRequest.idLimit at hid
        dsimp only at hid
        split_ifs at hid with htype
        cases hid
        have hunique : order.typeOffer = .t721 := hw.pair.2.1.trans htype
        have hpair : ¬order.fungiblePair = true := by simp [OrderInfo.fungiblePair, hunique]
        unfold OrderLimit.Admits at hadmits
        dsimp only at hadmits
        rw [if_neg hpair] at hadmits
        have hid := getIndex_idOffer hpriced.want hunique index.maker index.height
        rw [hindex, hadmits] at hid
        exact hid

-- The order that a page goes on from lies within the scan.
theorem OrderSearchRequest.Starts.from_ (h : s.Searchable env blocks)
    (hscans : request.Scans limit lower upper) (hstart : request.Starts limit s.ledger cursor) :
    ∃ number, TokenRpcHandler.searchFrom s request limit =
        .ok (s.ledger.orderTables.orderIndex.at_ number) ∧ lower ≤ number ∧ number ≤ upper ∧
      ∀ index : OrderIndex, s.ledger.orderIndexes.get index = some () → index.place < upper →
        (number ≤ index.place ∧ request.order ≠ some (index.maker, index.height) ↔
          lower ≤ index.place ∧ cursor ≤ index.place) := by
  cases hstart with
  | first hnone =>
      refine ⟨lower, hscans.first s hnone, Nat.le_refl _, hscans.le, fun index _ _ => ?_⟩
      rw [hnone]
      exact ⟨fun hle => ⟨hle.1, Nat.zero_le _⟩, fun hle => ⟨hle.1, fun hsome => (by cases hsome)⟩⟩
  | @after maker height order hsome hget hcheck =>
      have hpriced := h.book.priced _ _ hget
      obtain ⟨hmaker, hheight, -⟩ := hpriced.getIndex_place maker height
      have hwithin : lower ≤ (order.getIndex maker height).place ∧
          (order.getIndex maker height).place < upper := by
        unfold OrderSearchRequest.checkOrder at hcheck
        simp only [Bool.and_eq_true, decide_eq_true_eq] at hcheck
        obtain ⟨⟨⟨⟨htokenOffer, htokenWant⟩, htypeOffer⟩, htypeWant⟩, hlimit⟩ := hcheck
        refine (hscans.exact _).mpr
          ⟨OrderIndex.pair_iff.mpr ⟨htokenOffer, htypeOffer, htokenWant, htypeWant⟩, fun id hid => ?_⟩
        cases limit with
        | none => cases hid
        | toToken value => cases hid
        | fromToken value =>
            unfold OrderSearchRequest.idLimit at hid
            dsimp only at hid
            split_ifs at hid with htype
            cases hid
            have hid : (order.getIndex maker height).idOffer = id := by simpa [htype] using hlimit
            exact hid
      refine ⟨(order.getIndex maker height).place, ?_, hwithin.1, Nat.le_of_lt hwithin.2,
        fun index hindex _ => ?_⟩
      · unfold TokenRpcHandler.searchFrom
        rw [hsome]
        dsimp only
        rw [orReturn_pass hget, returnIf_pass (by rw [hcheck]; simp)]
        exact congrArg Except.ok (Scans.KeyTable.setRange_eq _ _)
      · obtain ⟨found, hfound, -, hsame⟩ := (h.book.indexed index).mp hindex
        have hown : request.order = some (index.maker, index.height) ↔
            index.place = (order.getIndex maker height).place := by
          rw [hsome]
          constructor
          · intro heq
            obtain ⟨rfl, rfl⟩ := Prod.mk.inj (Option.some.inj heq)
            cases hfound.symm.trans hget
            rw [hsame]
          · intro hplace
            have hlt := h.book.bounded _ _ hget
            rw [OrderIndex.place_inj (h.book.bounded _ _ hfound) (hheight.symm ▸ hlt) hplace,
              hmaker, hheight]
        rw [ne_eq, hown]
        omega

end Range

section Page

private theorem exists_map {α β : Type} {f : α → β} {P : α → Prop} {bs : List β}
    (h : ∀ b ∈ bs, ∃ a, P a ∧ f a = b) : ∃ as : List α, as.map f = bs ∧ ∀ a ∈ as, P a := by
  induction bs with
  | nil => exact ⟨[], rfl, fun _ ha => (by cases ha)⟩
  | cons b bs ih =>
      obtain ⟨⟨a, ha, rfl⟩, hrest⟩ := List.forall_mem_cons.mp h
      obtain ⟨as, rfl, has⟩ := ih hrest
      exact ⟨a :: as, rfl, List.forall_mem_cons.mpr ⟨ha, has⟩⟩

private theorem filterMap_sublist {α β : Type} {f : α → Option β} {g : β → α} {as : List α}
    (h : ∀ a ∈ as, ∀ b, f a = some b → g b = a) : ((as.filterMap f).map g).Sublist as := by
  induction as with
  | nil => exact .slnil
  | cons a as ih =>
      obtain ⟨ha, hrest⟩ := List.forall_mem_cons.mp h
      cases hf : f a with
      | none =>
          rw [List.filterMap_cons_none hf]
          exact (ih hrest).cons a
      | some b =>
          rw [List.filterMap_cons_some hf, List.map_cons, ha b hf]
          exact (ih hrest).cons_cons a

variable {env : Env} {blocks : Set Block} {s : App TokenLedger} {request : OrderSearchRequest}
  {limit : OrderLimit} {now : UInt64} {lower upper cursor : Nat} {index : OrderIndex}

-- The round for an index of the scan.
theorem searchRound_ok (now : UInt64) (happart : Apart env blocks) (h : s.Searchable env blocks)
    (hscans : request.Scans limit lower upper)
    (hindex : s.ledger.orderIndexes.get index = some ()) (hlower : lower ≤ index.place)
    (hupper : index.place < upper) :
    ∃ found, TokenRpcHandler.searchRound s now request limit index.bytes = .ok found ∧
      (found.isSome ↔ request.order ≠ some (index.maker, index.height) ∧
        request.WantsIndex limit now s.ledger index) ∧
      ∀ entry, found = some entry → entry.index = index ∧ entry.Shows env s := by
  obtain ⟨order, hget, hopen, hsame⟩ := (h.book.indexed index).mp hindex
  have hheight := OrderIndex.height_key (h.book.bounded _ _ hget)
  have hmaker : index.key.maker = index.maker := rfl
  unfold TokenRpcHandler.searchRound
  rw [OrderIndex.get_bytes, Except.ok_bind, hheight, hmaker]
  by_cases hown : request.order = some (index.maker, index.height)
  · rw [if_pos hown]
    refine ⟨none, rfl, ?_, fun entry hentry => ?_⟩
    · simp [hown]
    · cases hentry
  rw [if_neg hown]
  have hpriced := h.book.priced _ _ hget
  obtain ⟨-, -, htokenOffer, htypeOffer, htokenWant, htypeWant⟩ :=
    hpriced.getIndex_place index.maker index.height
  have hpair := OrderIndex.pair_iff.mp ((hscans.exact index.key).mp ⟨hlower, hupper⟩).1
  rw [← hsame, htokenOffer, htypeOffer, htokenWant, htypeWant] at hpair
  obtain ⟨found, hfound, hnone, hentry⟩ :=
    TokenRpcHandler.searchEntry_ok now limit happart h hget hopen hpair
  refine ⟨found, hfound, ?_, fun entry hsome => ?_⟩
  · have hwants : request.WantsIndex limit now s.ledger index ↔
        request.Wants limit now s.ledger index.maker index.height order := by
      constructor
      · rintro ⟨other, hw, -⟩
        cases hw.found.symm.trans hget
        exact hw
      · exact fun hw => ⟨order, hw, hsame⟩
    rw [hwants, Option.isSome_iff_ne_none, ne_eq, hnone, not_not]
    exact ⟨fun hw => ⟨hown, hw⟩, fun hw => hw.2⟩
  · obtain ⟨hentryMaker, hentryHeight, hentryOrder, hshows⟩ := hentry entry hsome
    refine ⟨?_, hshows⟩
    rw [OrderEntry.index, hentryMaker, hentryHeight, hentryOrder, hsame]

-- A page lists from its beginning on what is asked for at that moment.
theorem search_page (now : UInt64) (happart : Apart env blocks) (h : s.Searchable env blocks)
    (hlimit : request.limit = .ok limit) (hstart : request.Starts limit s.ledger cursor) :
    ∃ entries more, TokenRpcHandler.searchOrdersByPair s now request = .ok (entries, more) ∧
      ListsFrom OrderIndex.place (request.WantsIndex limit now s.ledger) cursor
        (entries.map OrderEntry.index) more ∧
      (more = true → entries.length = request.pageSize) ∧ ∀ entry ∈ entries, entry.Shows env s := by
  obtain ⟨lower, upper, hscans⟩ := request.exists_scans limit
  obtain ⟨number, hfrom, hlower, hupper, hcursor⟩ := hstart.from_ h hscans
  have hsorted := Scans.KeyTable.pairwise_place s.ledger.orderTables.orderIndex
  obtain ⟨front, hfrontDef⟩ : ∃ front, front =
      (inOrder Scans.keyLe s.ledger.orderTables.orderIndex.keys).filter fun bytes =>
        number ≤ fromBigEndian bytes ∧ fromBigEndian bytes < upper := ⟨_, rfl⟩
  have hsplit : s.ledger.orderTables.orderIndex.at_ number =
      front ++ s.ledger.orderTables.orderIndex.at_ upper := by
    rw [hfrontDef]
    exact entriesFrom_split hsorted hupper
  have hmem (bytes : List UInt8) : bytes ∈ front ↔ (∃ index,
      s.ledger.orderIndexes.get index = some () ∧ index.bytes = bytes) ∧
        number ≤ fromBigEndian bytes ∧ fromBigEndian bytes < upper := by
    rw [hfrontDef, List.mem_filter, mem_inOrder, mem_orderTables, decide_eq_true_eq]
  -- the keys of the scan are those of some indexes, in their order
  obtain ⟨indexes, rfl, hindexes⟩ : ∃ indexes : List OrderIndex,
      indexes.map OrderIndex.bytes = front ∧ ∀ index ∈ indexes,
        s.ledger.orderIndexes.get index = some () ∧ number ≤ index.place ∧ index.place < upper := by
    refine exists_map fun bytes hbytes => ?_
    obtain ⟨⟨index, hindex, rfl⟩, hle, hlt⟩ := (hmem bytes).mp hbytes
    exact ⟨index, ⟨hindex, hle, hlt⟩, rfl⟩
  have hplaces : indexes.Pairwise fun a b => a.place < b.place := by
    have hpairs : (indexes.map OrderIndex.bytes).Pairwise fun a b =>
        fromBigEndian a < fromBigEndian b := by
      rw [hfrontDef]
      exact hsorted.filter _
    rw [List.pairwise_map] at hpairs
    exact hpairs
  have hrounds (index : OrderIndex) (hin : index ∈ indexes) :=
    searchRound_ok now happart h hscans (hindexes index hin).1
      (Nat.le_trans hlower (hindexes index hin).2.1) (hindexes index hin).2.2
  obtain ⟨f, hf⟩ : ∃ f : List UInt8 → Option OrderEntry, f = fun bytes =>
      (TokenRpcHandler.searchRound s now request limit bytes).toOption.join := ⟨_, rfl⟩
  have hok (index : OrderIndex) (hin : index ∈ indexes) :
      TokenRpcHandler.searchRound s now request limit index.bytes = .ok (f index.bytes) := by
    obtain ⟨found, hfound, -⟩ := hrounds index hin
    rw [hf]
    dsimp only
    rw [hfound]
    rfl
  have hfound (index : OrderIndex) (hin : index ∈ indexes) :
      ((f index.bytes).isSome ↔ request.order ≠ some (index.maker, index.height) ∧
        request.WantsIndex limit now s.ledger index) ∧
      ∀ entry, f index.bytes = some entry → entry.index = index ∧ entry.Shows env s := by
    obtain ⟨found, hround, hspec⟩ := hrounds index hin
    rw [hok index hin] at hround
    cases hround
    exact hspec
  have hbelow : ∀ bytes ∈ indexes.map OrderIndex.bytes,
      (s.ledger.orderTables.orderIndex.at_ upper).head? ≠ some bytes := by
    intro bytes hbytes hhead
    have hge := (Scans.KeyTable.mem_at.mp (List.mem_of_mem_head? hhead)).2
    have hlt := ((hmem bytes).mp hbytes).2.2
    omega
  obtain ⟨more, hloop, hall, hfull⟩ :=
    TokenRpcHandler.searchLoop_ok (List.forall_mem_map.mpr hok) hbelow request.pageSize
  rw [List.filterMap_map] at hloop hall hfull
  refine ⟨_, more, ?_, ?_, hfull, fun entry hentry => ?_⟩
  · unfold TokenRpcHandler.searchOrdersByPair
    rw [hlimit, Except.ok_bind, hfrom, Except.ok_bind, hscans.last, hsplit]
    exact hloop
  · rw [List.map_take]
    have hsub : ((indexes.filterMap (f ∘ OrderIndex.bytes)).map OrderEntry.index).Sublist indexes :=
      filterMap_sublist fun index hin entry hentry => ((hfound index hin).2 entry hentry).1
    have hlisted (index : OrderIndex) :
        index ∈ (indexes.filterMap (f ∘ OrderIndex.bytes)).map OrderEntry.index ↔
          request.WantsIndex limit now s.ledger index ∧ cursor ≤ index.place := by
      rw [List.mem_map]
      constructor
      · rintro ⟨entry, hentry, rfl⟩
        obtain ⟨index, hin, hsome⟩ := List.mem_filterMap.mp hentry
        obtain ⟨hiff, hspec⟩ := hfound index hin
        rw [(hspec entry hsome).1]
        obtain ⟨hindex, hnumber, hlt⟩ := hindexes index hin
        obtain ⟨hown, hwants⟩ := hiff.mp (Option.isSome_iff_exists.mpr ⟨entry, hsome⟩)
        exact ⟨hwants, ((hcursor index hindex hlt).mp ⟨hnumber, hown⟩).2⟩
      · rintro ⟨hwants, hle⟩
        obtain ⟨hindex, hplace, hlt⟩ := hwants.scanned h hscans
        obtain ⟨hnumber, hown⟩ := (hcursor index hindex hlt).mpr ⟨hplace, hle⟩
        have hbytes := (hmem index.bytes).mpr ⟨⟨index, hindex, rfl⟩, hnumber, hlt⟩
        obtain ⟨other, hin, hsame⟩ := List.mem_map.mp hbytes
        have hplaces : other.place = index.place := congrArg fromBigEndian hsame
        obtain ⟨a, ha, -⟩ := (h.book.indexed index).mp hindex
        obtain ⟨b, hb, -⟩ := (h.book.indexed other).mp (hindexes other hin).1
        obtain rfl := OrderIndex.place_inj (h.book.bounded _ _ hb) (h.book.bounded _ _ ha) hplaces
        obtain ⟨entry, hsome⟩ :=
          Option.isSome_iff_exists.mp ((hfound other hin).1.mpr ⟨hown, hwants⟩)
        exact ⟨entry, List.mem_filterMap.mpr ⟨other, hin, hsome⟩, ((hfound other hin).2 entry hsome).1⟩
    refine ListsFrom.take (ascends_of_pairwise (hplaces.sublist hsub) fun index hin => ?_) hlisted
      fun hmore => ?_
    · exact ((hlisted index).mp hin).2
    · rw [List.length_map]
      exact hall hmore
  · obtain ⟨index, hin, hsome⟩ := List.mem_filterMap.mp (List.mem_of_mem_take hentry)
    exact ((hfound index hin).2 entry hsome).2

end Page

section Prices

variable {a b : TokenValue}

theorem SwapRate.toNat_of {denominator : TokenValue} (h : denominator ≠ 0) (numerator : TokenValue) :
    (SwapRate.of denominator numerator).toNat =
      numerator.toNat * 2 ^ 256 / denominator.toNat := by
  have hlt : numerator.toNat * 2 ^ 256 < 2 ^ 512 := by
    have := Nat.mul_lt_mul_of_pos_right numerator.isLt (Nat.two_pow_pos 256)
    rwa [← Nat.pow_add] at this
  rw [SwapRate.of, if_neg h, BitVec.toNat_ofNat,
    Nat.mod_eq_of_lt (Nat.lt_of_le_of_lt (Nat.div_le_self _ _) hlt)]

-- Quotients in their order leave the numbers in theirs, up to the last binary place.
theorem div_le_div_lt {p q m n : Nat} (hm : 0 < m) (hn : 0 < n) (h : p / m ≤ q / n) :
    p * n < (q + n) * m := by
  have hp : p < (p / m + 1) * m := by
    have := Nat.div_add_mod p m
    have := Nat.mod_lt p hm
    rw [Nat.add_mul, Nat.one_mul, Nat.mul_comm (p / m)]
    omega
  have hq : (p / m + 1) * n ≤ q + n := by
    have hle := Nat.mul_le_mul_right n h
    have := Nat.div_mul_le_self q n
    rw [Nat.add_mul, Nat.one_mul]
    omega
  calc p * n < (p / m + 1) * m * n := Nat.mul_lt_mul_of_pos_right hp hn
    _ = (p / m + 1) * n * m := Nat.mul_right_comm _ _ _
    _ ≤ (q + n) * m := Nat.mul_le_mul_right m hq

-- Of two orders of a fungible pair the one with the smaller key is not the dearer one.
theorem price_le_of_place {order other : OrderInfo} {maker maker' : Account} {height height' : Nat}
    (hpriced : order.Priced) (hpriced' : other.Priced) (hfungible : order.fungiblePair = true)
    (hfungible' : other.fungiblePair = true) (htokens : order.tokenOffer = other.tokenOffer ∧
      order.tokenWant = other.tokenWant)
    (h : (order.getIndex maker height).place < (other.getIndex maker' height').place) :
    order.valueWant.toNat * 2 ^ 256 * other.valueOffer.toNat <
      (other.valueWant.toNat * 2 ^ 256 + other.valueOffer.toNat) * order.valueOffer.toNat := by
  have index {order : OrderInfo} (hfungible : order.fungiblePair = true) (maker : Account)
      (height : Nat) : order.getIndex maker height = ⟨order.tokenOffer, .t20, order.tokenWant, .t20,
        0, 0, .of order.valueOffer order.valueWant, maker, height⟩ := by
    obtain ⟨hoffer, hwant⟩ : order.typeOffer = .t20 ∧ order.typeWant = .t20 := by
      simpa [OrderInfo.fungiblePair] using hfungible
    rw [OrderInfo.getIndex, hoffer, hwant]
  have hoffer := (hpriced.values hfungible).1
  have hoffer' := (hpriced'.values hfungible').1
  rw [index hfungible, index hfungible', OrderIndex.place, OrderIndex.place,
    Scans.OrderIndex.place_eq, Scans.OrderIndex.place_eq] at h
  dsimp only [OrderIndex.key, Scans.OrderPair.number, Scans.OrderIndex.tailNumber] at h
  rw [htokens.1, htokens.2, SwapRate.toNat_of hoffer, SwapRate.toNat_of hoffer'] at h
  have hmaker := maker.isLt
  have hheight := (UInt64.ofNat height).toNat_lt
  have hmaker' := maker'.isLt
  have hheight' := (UInt64.ofNat height').toNat_lt
  have hpos {value : TokenValue} (hne : value ≠ 0) : 0 < value.toNat :=
    Nat.pos_of_ne_zero fun hzero => hne (BitVec.eq_of_toNat_eq (hzero.trans (Scans.zero_union 256).symm))
  refine div_le_div_lt (hpos hoffer) (hpos hoffer') ?_
  omega

end Prices

section Requests

variable {env : Env} {blocks : Set Block} {s : App TokenLedger} {l : TokenLedger}
  {request : OrderSearchRequest} {limit : OrderLimit} {now : UInt64} {maker : Account} {height : Nat}
  {order : OrderInfo} {index : OrderIndex}

-- What a request asks for does not depend on where the page begins.
theorem wantsIndex_after (after : Option (Account × Nat)) :
    { request with order := after }.WantsIndex limit now l index ↔
      request.WantsIndex limit now l index := by
  constructor
  · rintro ⟨order, hw, hindex⟩
    exact ⟨order, ⟨hw.found, hw.unfinished, hw.pair, hw.admitted, hw.active⟩, hindex⟩
  · rintro ⟨order, hw, hindex⟩
    exact ⟨order, ⟨hw.found, hw.unfinished, hw.pair, hw.admitted, hw.active⟩, hindex⟩

theorem getIndex_idWant (hoffer : order.typeOffer ≠ .invalid) (htype : order.typeWant = .t721)
    (maker : Account) (height : Nat) : (order.getIndex maker height).idWant = order.valueWant := by
  unfold OrderInfo.getIndex
  rw [htype]
  cases hofferType : order.typeOffer with
  | invalid => exact absurd hofferType hoffer
  | t20 => rfl
  | t721 => rfl

-- A page can go on from an order that has been listed.
theorem OrderSearchRequest.Wants.checkOrder (hpriced : order.Priced)
    (h : request.Wants limit now l maker height order) :
    request.checkOrder limit (order.getIndex maker height) = true := by
  obtain ⟨-, -, htokenOffer, htypeOffer, htokenWant, htypeWant⟩ :=
    hpriced.getIndex_place maker height
  obtain ⟨hfrom, hfromType, hto, htoType⟩ := h.pair
  have hadmits := h.admitted
  unfold OrderSearchRequest.checkOrder
  rw [htokenOffer, htypeOffer, htokenWant, htypeWant, hfrom, hfromType, hto, htoType]
  cases limit with
  | none => simp
  | fromToken value =>
      by_cases hunique : request.fromType = .t721
      · have hpair : ¬order.fungiblePair = true := by
          simp [OrderInfo.fungiblePair, hfromType, hunique]
        unfold OrderLimit.Admits at hadmits
        dsimp only at hadmits
        rw [if_neg hpair] at hadmits
        have hid := getIndex_idOffer hpriced.want (hfromType.trans hunique) maker height
        simp [hid, hadmits]
      · simp [hunique]
  | toToken value =>
      by_cases hunique : request.toType = .t721
      · have hpair : ¬order.fungiblePair = true := by
          simp [OrderInfo.fungiblePair, htoType, hunique]
        unfold OrderLimit.Admits at hadmits
        dsimp only at hadmits
        rw [if_neg hpair] at hadmits
        have hid := getIndex_idWant hpriced.offer (htoType.trans hunique) maker height
        simp [hid, hadmits]
      · simp [hunique]

theorem pageSize_pos : 0 < request.pageSize := by
  unfold OrderSearchRequest.pageSize
  dsimp only
  split_ifs <;> omega

end Requests

section Runs

variable {env : Env} {content : Block → TokenContent} {blocks : Set Block} {s : PagedSearch}
  {request : OrderSearchRequest} {limit : OrderLimit} {call : SearchCall} {entries : List OrderEntry}
  {more : Bool}

-- An answered call: a full page if it says that there is more, and each order as it was then.
structure SearchCall.Answered (env : Env) (request : OrderSearchRequest) (limit : OrderLimit)
    (call : SearchCall) : Prop where
  answer : ∃ entries more, call.answer = .ok (entries, more)
  full : call.more = true → call.entries.length = request.pageSize
  shows : ∀ entry ∈ call.entries, entry.Shows env call.app ∧
    request.Wants limit call.now call.app.ledger entry.maker entry.height entry.order

-- The indexes that all calls have asked for.
def PagedSearch.Steady (request : OrderSearchRequest) (limit : OrderLimit) (s : PagedSearch)
    (index : OrderIndex) : Prop :=
  ∀ call ∈ s.calls, request.WantsIndex limit call.now call.app.ledger index

structure PagedSearch.Inv (env : Env) (blocks : Set Block) (request : OrderSearchRequest)
    (limit : OrderLimit) (s : PagedSearch) : Prop where
  ready : s.app.app.Searchable env blocks
  since : ∀ call ∈ s.calls, call.app.Searchable env blocks ∧
    OrdersKept call.app.ledger s.app.app.ledger
  answered : ∀ call ∈ s.calls, call.Answered env request limit
  sweeps : Sweeps OrderIndex.place (s.Steady request limit) (s.listed.map OrderEntry.index) s.unended

theorem SearchCall.entries_of_ok (h : call.answer = .ok (entries, more)) :
    call.entries = entries ∧ call.more = more := by
  rw [SearchCall.entries, SearchCall.more, h]
  exact ⟨rfl, rfl⟩

theorem PagedSearch.listed_cons (calls : List SearchCall) (app : TokenApp) :
    PagedSearch.listed ⟨app, call :: calls⟩ = PagedSearch.listed ⟨app, calls⟩ ++ call.entries := by
  rw [listed, listed, List.reverse_cons, List.flatMap_append]
  simp only [List.flatMap_cons, List.flatMap_nil, List.append_nil]

-- The last order of the previous page is the last one of all.
theorem PagedSearch.Inv.cursor_eq (h : s.Inv env blocks request limit) (hopen : s.unended = true) :
    s.cursor = s.listed.getLast?.map fun entry => (entry.maker, entry.height) := by
  obtain ⟨app, calls⟩ := s
  cases calls with
  | nil => rfl
  | cons call calls =>
      have hmore : call.more = true := hopen
      have hfull := (h.answered call List.mem_cons_self).full hmore
      have hne : call.entries ≠ [] := by
        rintro hnil
        rw [hnil] at hfull
        have := @pageSize_pos request
        simp only [List.length_nil] at hfull
        omega
      rw [listed_cons, List.getLast?_append_of_ne_nil _ hne]
      rfl

theorem PagedSearch.mem_listed {entry : OrderEntry} :
    entry ∈ s.listed ↔ ∃ call ∈ s.calls, entry ∈ call.entries := by
  rw [listed, List.mem_flatMap]
  simp only [List.mem_reverse]

-- An order that was listed is still known, under the index that it was listed with.
theorem PagedSearch.Inv.order_of_listed (h : s.Inv env blocks request limit) {entry : OrderEntry}
    (hentry : entry ∈ s.listed) : entry.order.Priced ∧
      request.checkOrder limit entry.index = true ∧ ∃ order,
        s.app.app.ledger.orders.get (entry.maker, entry.height) = some order ∧
          order.getIndex = entry.order.getIndex := by
  obtain ⟨call, hcall, hentry⟩ := PagedSearch.mem_listed.mp hentry
  obtain ⟨hsearchable, hkept⟩ := h.since call hcall
  obtain ⟨hshows, hwants⟩ := (h.answered call hcall).shows entry hentry
  have hpriced := hsearchable.book.priced _ _ hshows.order
  obtain ⟨order, hget, hterms⟩ := hkept.terms _ _ hshows.order
  exact ⟨hpriced, hwants.checkOrder hpriced, order, hget, hterms.index⟩

theorem PagedSearch.Inv.starts (h : s.Inv env blocks request limit) (hopen : s.unended = true) :
    { request with order := s.cursor }.Starts limit s.app.app.ledger
      (cursorAfter OrderIndex.place 0 (s.listed.map OrderEntry.index)) := by
  rw [cursorAfter, List.getLast?_map, h.cursor_eq hopen]
  cases hlast : s.listed.getLast? with
  | none => exact .first rfl
  | some entry =>
      obtain ⟨-, hcheck, order, hget, hindex⟩ := h.order_of_listed (List.mem_of_getLast? hlast)
      change OrderSearchRequest.Starts _ _ _ (entry.index.place + 1)
      rw [OrderEntry.index, ← hindex]
      refine .after rfl hget ?_
      rw [hindex]
      exact hcheck

theorem PagedSearch.Inv.page (happart : Apart env blocks) (hlimit : request.limit = .ok limit)
    (h : s.Inv env blocks request limit) (hopen : s.unended = true) (now : UInt64) :
    (s.page request now).Inv env blocks request limit := by
  have hlimit' : { request with order := s.cursor }.limit = .ok limit := hlimit
  obtain ⟨entries, more, hanswer, hlists, hfull, hshows⟩ :=
    search_page now happart h.ready hlimit' (h.starts hopen)
  obtain ⟨hentries, hmore⟩ := SearchCall.entries_of_ok
    (show (SearchCall.mk s.app.app now (TokenRpcHandler.searchOrdersByPair s.app.app now
      { request with order := s.cursor })).answer = _ from hanswer)
  constructor
  · exact h.ready
  · intro call hcall
    rcases List.mem_cons.mp hcall with rfl | hcall
    · exact ⟨h.ready, .refl h.ready.covered h.ready.book⟩
    · exact h.since call hcall
  · intro call hcall
    rcases List.mem_cons.mp hcall with rfl | hcall
    · refine ⟨⟨entries, more, hanswer⟩, fun h => ?_, fun entry hentry => ?_⟩
      · rw [hmore] at h
        rw [hentries]
        exact hfull h
      · rw [hentries] at hentry
        have hentryShows := hshows entry hentry
        refine ⟨hentryShows, ?_⟩
        obtain ⟨order, hw, -⟩ := (wantsIndex_after _).mp
          (hlists.sound _ (List.mem_map_of_mem hentry))
        obtain ⟨hmaker, hheight, -⟩ := (h.ready.book.priced _ _ hentryShows.order).getIndex_place
          entry.maker entry.height
        have hplace : entry.index.maker = entry.maker ∧ entry.index.height = entry.height :=
          ⟨hmaker, hheight⟩
        rw [hplace.1, hplace.2] at hw
        cases hw.found.symm.trans hentryShows.order
        exact hw
    · exact h.answered call hcall
  · have hsweeps := h.sweeps
    rw [hopen] at hsweeps
    have hnext := hsweeps.page hlists
    rw [← List.map_append] at hnext
    change Sweeps _ _ ((PagedSearch.listed ⟨s.app, _ :: s.calls⟩).map _) _
    rw [PagedSearch.listed_cons, hentries]
    have hunended : (s.page request now).unended = more := hmore
    rw [hunended]
    refine ⟨hnext.ascends, fun index hsteady => hnext.complete index ⟨fun call hcall => ?_, ?_⟩⟩
    · exact hsteady call (List.mem_cons_of_mem _ hcall)
    · exact (wantsIndex_after _).mpr (hsteady _ List.mem_cons_self)

theorem PagedSearch.run_inv (happart : Apart env blocks) (hlimit : request.limit = .ok limit)
    {history : History PagedSearch PagedSearchAction}
    (hrun : (pagedSearchMachine env content blocks request).Run (fun _ _ => True) history s) :
    s.Inv env blocks request limit := by
  refine hrun.invariant (P := fun _ s => PagedSearch.Inv env blocks request limit s) ?_ ?_
  · rintro _ rfl
    refine ⟨.empty, fun _ hcall => (by cases hcall), fun _ hcall => (by cases hcall), ?_⟩
    exact Sweeps.start
  · intro history s action _ hfits _ h
    cases action with
    | page now => exact h.page happart hlimit hfits now
    | act action =>
        obtain ⟨hready, hkept⟩ := h.ready.turn happart (s.app.take_turn hfits)
        refine ⟨hready, fun call hcall => ?_, h.answered, h.sweeps⟩
        obtain ⟨hcallReady, hcallKept⟩ := h.since call hcall
        refine ⟨hcallReady, hkept.covered, hkept.book, fun key order hget => ?_⟩
        obtain ⟨order₁, hget₁, hterms₁⟩ := hcallKept.terms key order hget
        obtain ⟨order₂, hget₂, hterms₂⟩ := hkept.terms key order₁ hget₁
        exact ⟨order₂, hget₂, hterms₁.trans hterms₂⟩

-- What the pages promise: no call fails, each order that is listed was asked for and is shown as it
-- was at the call, none is listed twice, a fungible pair's come with the best prices first, and at
-- the end every order has been listed that all calls asked for.
structure PagedSearch.Exact (env : Env) (request : OrderSearchRequest) (limit : OrderLimit)
    (s : PagedSearch) : Prop where
  answered : ∀ call ∈ s.calls, call.Answered env request limit
  once : (s.listed.map fun entry => (entry.maker, entry.height)).Nodup
  best : request.fromType = .t20 → request.toType = .t20 → s.listed.Pairwise fun a b =>
    a.order.valueWant.toNat * 2 ^ 256 * b.order.valueOffer.toNat <
      (b.order.valueWant.toNat * 2 ^ 256 + b.order.valueOffer.toNat) * a.order.valueOffer.toNat
  complete : s.unended = false → ∀ maker height,
    (∀ call ∈ s.calls, ∃ order, request.Wants limit call.now call.app.ledger maker height order) →
      ∃ entry ∈ s.listed, entry.maker = maker ∧ entry.height = height

theorem PagedSearch.Inv.exact (h : s.Inv env blocks request limit) :
    s.Exact env request limit := by
  have hplaces : s.listed.Pairwise fun a b => a.index.place < b.index.place := by
    have hpairs := h.sweeps.ascends.pairwise
    rw [List.pairwise_map] at hpairs
    exact hpairs
  refine ⟨h.answered, ?_, fun hfrom hto => ?_, fun hended maker height hwants => ?_⟩
  · rw [List.Nodup, List.pairwise_map]
    refine hplaces.imp_of_mem fun {a b} ha hb hlt hkey => ?_
    obtain ⟨-, -, order, hget, hindex⟩ := h.order_of_listed ha
    obtain ⟨-, -, other, hget', hindex'⟩ := h.order_of_listed hb
    rw [hkey] at hget
    cases hget.symm.trans hget'
    obtain ⟨hmaker, hheight⟩ := Prod.mk.inj hkey
    have hsame : a.index = b.index := by
      rw [OrderEntry.index, OrderEntry.index, ← hindex, ← hindex', hmaker, hheight]
    rw [hsame] at hlt
    omega
  · refine hplaces.imp_of_mem fun {a b} ha hb hlt => ?_
    have hpair {entry : OrderEntry} (hentry : entry ∈ s.listed) : entry.order.fungiblePair = true ∧
        entry.order.tokenOffer = request.fromToken ∧ entry.order.tokenWant = request.toToken := by
      obtain ⟨call, hcall, hentry⟩ := PagedSearch.mem_listed.mp hentry
      obtain ⟨-, hwants⟩ := (h.answered call hcall).shows entry hentry
      obtain ⟨htokenOffer, htypeOffer, htokenWant, htypeWant⟩ := hwants.pair
      refine ⟨?_, htokenOffer, htokenWant⟩
      simp [OrderInfo.fungiblePair, htypeOffer, htypeWant, hfrom, hto]
    obtain ⟨hfungible, hoffer, hwant⟩ := hpair ha
    obtain ⟨hfungible', hoffer', hwant'⟩ := hpair hb
    exact price_le_of_place (h.order_of_listed ha).1 (h.order_of_listed hb).1 hfungible hfungible'
      ⟨hoffer.trans hoffer'.symm, hwant.trans hwant'.symm⟩ hlt
  · have hne : s.calls ≠ [] := by
      intro hnil
      rw [PagedSearch.unended, hnil] at hended
      cases hended
    obtain ⟨first, hfirst⟩ := List.exists_mem_of_ne_nil _ hne
    obtain ⟨order, hw⟩ := hwants first hfirst
    obtain ⟨current, hcurrent, hterms⟩ := (h.since first hfirst).2.terms _ _ hw.found
    obtain ⟨hmaker, hheight, -⟩ := (h.ready.book.priced _ _ hcurrent).getIndex_place maker height
    -- the order has had one index all the time
    have hsteady : s.Steady request limit (current.getIndex maker height) := by
      intro call hcall
      obtain ⟨then_, hthen⟩ := hwants call hcall
      obtain ⟨now_, hnow, hsame⟩ := (h.since call hcall).2.terms _ _ hthen.found
      cases hnow.symm.trans hcurrent
      refine ⟨then_, ?_, ?_⟩
      · rw [hmaker, hheight]
        exact hthen
      · rw [hmaker, hheight, ← hsame.index]
    rcases h.sweeps.complete _ hsteady with hmem | ⟨hopen, -⟩
    · obtain ⟨entry, hentry, hindex⟩ := List.mem_map.mp hmem
      obtain ⟨hpriced, -, -⟩ := h.order_of_listed hentry
      obtain ⟨hentryMaker, hentryHeight, -⟩ := hpriced.getIndex_place entry.maker entry.height
      have hsame : entry.order.getIndex entry.maker entry.height = current.getIndex maker height :=
        hindex
      rw [hsame] at hentryMaker hentryHeight
      exact ⟨entry, hentry, hentryMaker.symm.trans hmaker, hentryHeight.symm.trans hheight⟩
    · rw [hended] at hopen
      cases hopen

-- Whatever the application does between the pages.
theorem order_pages_exact (happart : Apart env blocks) (hlimit : request.limit = .ok limit)
    {history : History PagedSearch PagedSearchAction}
    (hrun : (pagedSearchMachine env content blocks request).Run (fun _ _ => True) history s) :
    s.Exact env request limit :=
  (PagedSearch.run_inv happart hlimit hrun).exact

end Runs

-- Account 1 makes two orders, and they are asked for one by one.
section Searched

def searchedRequest : OrderSearchRequest where
  fromToken := (tradeToken 1).key
  fromType := .t20
  toToken := (tradeToken 2).key
  toType := .t20
  limitBy := some "to_token"
  limitValue := some "150"
  includeInactive := none
  count := some 1
  order := none

def searchedBlocks : List Block :=
  [tradeBlock 1 0, tradeBlock 1 1, tradeBlock 1 2, tradeBlock 1 3, tradeBlock 1 4]

def searchedActions : List PagedSearchAction :=
  searchedBlocks.map (fun block =>
    .act (.process StoreCall.never TokenCall.never block true)) ++ [.page 0, .act .restart, .page 0]

def searchedMachine : Machine PagedSearch PagedSearchAction :=
  pagedSearchMachine sampleEnv vanishingContent { b | b ∈ searchedBlocks } searchedRequest

def searchedRun : History PagedSearch PagedSearchAction × PagedSearch :=
  searchedMachine.exec ⟨.empty, []⟩ searchedActions

theorem searched_apart : Apart sampleEnv { b | b ∈ searchedBlocks } where
  injective := by
    change ∀ b ∈ searchedBlocks, ∀ c ∈ searchedBlocks, sampleEnv.hash b = sampleEnv.hash c → b = c
    decide +kernel
  ne_zero := by
    change ∀ b ∈ searchedBlocks, sampleEnv.hash b ≠ 0
    decide +kernel
  height_ne := by
    change ∀ b ∈ searchedBlocks, b.height ≠ INVALID_HEIGHT
    decide +kernel

theorem searched_run : searchedMachine.Run (fun _ _ => True) searchedRun.1 searchedRun.2 := by
  refine Machine.exec_run_of_fits rfl (fun n hn => ?_) fun _ _ => trivial
  have hlt : n < 8 := hn
  have hcases : n = 0 ∨ n = 1 ∨ n = 2 ∨ n = 3 ∨ n = 4 ∨ n = 5 ∨ n = 6 ∨ n = 7 := by omega
  rcases hcases with rfl | rfl | rfl | rfl | rfl | rfl | rfl | rfl
  · exact (show tradeBlock 1 0 ∈ searchedBlocks by simp [searchedBlocks])
  · exact (show tradeBlock 1 1 ∈ searchedBlocks by simp [searchedBlocks])
  · exact (show tradeBlock 1 2 ∈ searchedBlocks by simp [searchedBlocks])
  · exact (show tradeBlock 1 3 ∈ searchedBlocks by simp [searchedBlocks])
  · exact (show tradeBlock 1 4 ∈ searchedBlocks by simp [searchedBlocks])
  · have hopen : (searchedMachine.exec ⟨.empty, []⟩ (searchedActions.take 5)).2.unended = true := by
      decide +kernel
    exact hopen
  · trivial
  · have hopen : (searchedMachine.exec ⟨.empty, []⟩ (searchedActions.take 7)).2.unended = true := by
      decide +kernel
    exact hopen

theorem searched_exact : searchedRun.2.unended = false ∧
    searchedRun.2.listed.map (fun entry => (entry.maker, entry.height)) = [(1, 3), (1, 4)] ∧
      searchedRun.2.Exact sampleEnv searchedRequest (.toToken 150) :=
  ⟨by decide +kernel, by decide +kernel, order_pages_exact searched_apart rfl searched_run⟩

end Searched

end Raicoin
