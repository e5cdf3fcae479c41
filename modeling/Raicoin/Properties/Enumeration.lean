import Raicoin.Node.BlockProcessor.Replay
import Raicoin.Node.Bootstrap.Batches

-- A bootstrap session goes over the tables of a ledger that does not change.
namespace Raicoin

open Lib

section Links

variable {env : Env} {t : BootstrapTables} {l : BootstrapLink}

-- Between two calls, with `rest` still to come.
structure Resting {α : Type} (type : BootstrapType) (place : α → Nat) (keys : List α)
    (cursor : Account → UInt64 → Nat) (rest : List α) (l : BootstrapLink) : Prop where
  stream : l.stream = []
  receiving : l.receiving = true
  errorCode : l.client.errorCode = none
  clientType : l.client.type = type
  finished : l.client.finished = false
  serverType : l.server.type.getD type = type
  serving : l.server.finished = false
  rest_eq : entriesFrom place keys (cursor l.client.next l.client.nextHeight) = rest

variable {α β : Type} {type : BootstrapType} {place : α → Nat} {keys : List α}
  {cursor : Account → UInt64 → Nat} {entry : α → β} {batch : BootstrapClient → List β} {size : Nat}

theorem readMessage_of_type {s : BootstrapServer} {request : BootstrapRequest}
    (h : s.type.getD request.type = request.type) : s.readMessage_ request = { s with
      errorCode := none
      type := some request.type
      next := request.start
      height := request.height
      maxSize := request.maxSize } := by
  unfold BootstrapServer.readMessage_
  dsimp only
  rw [h, if_neg fun hne => hne rfl]

-- A pause asks for nothing.
theorem Resting.pause {rest : List α} (h : Resting type place keys cursor rest l) :
    Resting type place keys cursor rest (l.pause t) := by
  unfold BootstrapLink.pause
  split
  · have hmessage := readMessage_of_type (show l.server.type.getD l.client.pauseRequest.type =
        l.client.pauseRequest.type by
      rw [BootstrapClient.pauseRequest, h.clientType]
      exact h.serverType)
    have hserver : l.server.run t l.client.pauseRequest =
        (l.server.readMessage_ l.client.pauseRequest, [], true) := by
      unfold BootstrapServer.run
      rw [hmessage]
      exact (if_neg Bool.false_ne_true).trans (if_pos rfl)
    unfold BootstrapLink.request
    rw [if_pos h.receiving, hserver, hmessage]
    constructor
    · exact (List.append_nil _).trans h.stream
    · rfl
    · rfl
    · exact h.clientType
    · exact h.finished
    · exact h.clientType
    · exact h.serving
    · exact h.rest_eq
  · exact h

-- What a `Run` delivers, and what it leaves to come.
structure Delivers (type : BootstrapType) (place : α → Nat) (keys : List α)
    (cursor : Account → UInt64 → Nat) (entry : α → β) (batch : BootstrapClient → List β)
    (size : Nat) (rest : List α) (l : BootstrapLink) : Prop where
  errorCode : l.client.errorCode = none
  batch_eq : batch l.client = (rest.take size).map entry
  last : rest = [] → l.client.finished = true
  going : rest ≠ [] → Resting type place keys cursor (rest.drop size) l

theorem drive_of_finished (h : l.client.finished = true) (calls : List BootstrapCall) :
    l.drive env t batch calls = .ok (l, []) := by
  cases calls with
  | nil => rfl
  | cons call calls =>
      cases call with
      | run => exact if_pos (.inl h)
      | pause => exact if_pos (.inl h)

-- Any pauses among the runs: each run takes the next `size` entries.
theorem drive_of_run (hrun : ∀ rest l, Resting type place keys cursor rest l → ∃ l',
      l.run env t = .ok l' ∧ Delivers type place keys cursor entry batch size rest l')
    (calls : List BootstrapCall) {rest : List α} (h : Resting type place keys cursor rest l) :
    ∃ l', l.drive env t batch calls = .ok (l', (rest.take (calls.count .run * size)).map entry) ∧
      l'.client.errorCode = none ∧
      (l'.client.finished = true ↔
        0 < calls.count .run ∧ rest.length ≤ (calls.count .run - 1) * size) := by
  induction calls generalizing l rest with
  | nil =>
      refine ⟨l, ?_, h.errorCode, ?_⟩
      · rw [List.count_nil, Nat.zero_mul, List.take_zero]
        rfl
      · simp [h.finished]
  | cons call calls ih =>
      have hgoing : ¬(l.client.finished = true ∨ l.client.errorCode.isSome = true) := by
        rw [h.finished, h.errorCode]
        decide
      cases call with
      | pause =>
          rw [List.count_cons_of_ne (by decide), BootstrapLink.drive, if_neg hgoing]
          exact ih h.pause
      | run =>
          obtain ⟨l', hl', hdelivers⟩ := hrun rest l h
          have hnone : ¬l'.client.errorCode.isSome = true := by
            rw [hdelivers.errorCode]
            decide
          rw [List.count_cons_self, BootstrapLink.drive, if_neg hgoing, hl', Access.ok_bind,
            if_neg hnone, hdelivers.batch_eq]
          by_cases hrest : rest = []
          · rw [drive_of_finished (hdelivers.last hrest)]
            refine ⟨l', ?_, hdelivers.errorCode, ?_⟩
            · rw [hrest, List.take_nil, List.take_nil]
              rfl
            · simp [hdelivers.last hrest, hrest]
          · obtain ⟨l'', hdrive, herror, hfinished⟩ := ih (hdelivers.going hrest)
            rw [hdrive]
            refine ⟨l'', ?_, herror, ?_⟩
            · rw [Nat.succ_mul, Nat.add_comm, List.take_add, List.map_append]
              rfl
            · rw [hfinished, List.length_drop]
              have hpos := List.length_pos_of_ne_nil hrest
              obtain hzero | hlt := Nat.eq_zero_or_pos (calls.count .run)
              · rw [hzero]
                simp
                omega
              · obtain ⟨n, hn⟩ := Nat.exists_eq_add_of_le' hlt
                rw [hn, Nat.add_sub_cancel, Nat.add_sub_cancel, Nat.succ_mul]
                omega

-- A request, and what the client makes of the answer.
theorem run_entries {ι : Type} {write : ι → List UInt8} {mark : List UInt8} {entries : List ι}
    {Ready : BootstrapClient → List ι → Prop} {Done : BootstrapClient → Prop}
    (hwrite : ∀ i, 0 < (write i).length)
    (hentry : ∀ c i rest stream, Ready c (i :: rest) →
      (⟨c, write i ++ stream⟩ : BootstrapSession).returns = false ∧
        ∃ c', (⟨c, write i ++ stream⟩ : BootstrapSession).round env = .ok ⟨c', stream⟩ ∧
          Ready c' rest)
    (hmark : ∀ c stream, Ready c [] →
      (⟨c, mark ++ stream⟩ : BootstrapSession).returns = false ∧
        ∃ c', (⟨c, mark ++ stream⟩ : BootstrapSession).round env = .ok ⟨c', stream⟩ ∧
          (⟨c', stream⟩ : BootstrapSession).returns = true ∧
          Done (⟨c', stream⟩ : BootstrapSession).end_.client)
    (hstream : l.stream = []) (hreceiving : l.receiving = true)
    {server : BootstrapServer} {receiving : Bool}
    (hserver : l.server.run t l.client.request =
      (server, (entries.map write).flatten ++ mark, receiving))
    (hready : Ready (⟨l.client, []⟩ : BootstrapSession).begin_.client entries) :
    ∃ c, l.run env t = .ok ⟨c, true, [], server, receiving⟩ ∧ Done c := by
  have hlength : ∀ entries : List ι, entries.length ≤ ((entries.map write).flatten).length := by
    intro entries
    induction entries with
    | nil => exact Nat.le_refl 0
    | cons i rest ih =>
        have hpos := hwrite i
        rw [List.map_cons, List.flatten_cons, List.length_append, List.length_cons]
        omega
  obtain ⟨c, hloop, hdone⟩ := BootstrapSession.loop_entries hentry hmark hready
    (((entries.map write).flatten ++ mark).length + 2)
    (by have hle := hlength entries; rw [List.length_append]; omega) []
  refine ⟨c, ?_, hdone⟩
  unfold BootstrapLink.run BootstrapLink.request
  rw [if_pos hreceiving, hserver]
  dsimp only
  rw [hstream, List.nil_append]
  unfold BootstrapSession.run
  rw [List.append_nil] at hloop
  exact congrArg (fun session : Access BootstrapSession =>
    session >>= fun session => (.ok ⟨session.client, true, session.stream, server, receiving⟩ :
      Access BootstrapLink)) hloop

end Links

section Pages

variable {α β : Type} {env : Env} {t : BootstrapTables} {l : BootstrapLink} {type : BootstrapType}
  {place : α → Nat} {keys : List α} {cursor : Account → UInt64 → Nat} {write : α → List UInt8}
  {found : BootstrapServer → Option (BootstrapServer × List UInt8)} {mark : List UInt8}
  {entry : α → β} {batchOf : BootstrapClient → List β}

-- A request between two calls is answered with one page.
theorem Serves.run (h : Serves found place keys cursor write)
    (hsorted : keys.Pairwise fun a b => place a < place b)
    (hdispatch : ∀ s : BootstrapServer, s.type = some type → (match s.type with
      | some .full => BootstrapServer.answer (BootstrapServer.runFull_ t) (s.maxSize.toNat + 3) s
      | some .fork => BootstrapServer.answer (BootstrapServer.runFork_ t) (s.maxSize.toNat + 3) s
      | _ => (s, [], false)) =
        BootstrapServer.answer (BootstrapServer.serve · found mark) (s.maxSize.toNat + 3) s)
    (hmax : BootstrapClient.maxSize_ type ≠ 0) {rest : List α}
    (hl : Resting type place keys cursor rest l) :
    ∃ s' receiving, l.server.run t l.client.request =
        (s', ((rest.take (BootstrapClient.maxSize_ type).toNat).map write).flatten ++ mark,
          receiving) ∧
      Answered (some type) (rest.take (BootstrapClient.maxSize_ type).toNat).length s' receiving := by
  have hrequest : l.client.request =
      ⟨type, l.client.next, l.client.nextHeight, BootstrapClient.maxSize_ type⟩ := by
    rw [BootstrapClient.request, hl.clientType]
  have hmessage := readMessage_of_type (show l.server.type.getD l.client.request.type =
    l.client.request.type by rw [hrequest]; exact hl.serverType)
  rw [hrequest] at hmessage
  obtain ⟨s', receiving, hanswer, hanswered⟩ := h.answer mark
    (show (l.server.readMessage_ l.client.request).finished = false by
      rw [hrequest, hmessage]
      exact hl.serving)
    (by
      rw [hrequest, hmessage]
      exact Nat.pos_of_ne_zero fun hzero => hmax (UInt16.toNat_inj.mp hzero))
  rw [hrequest, hmessage] at hanswer hanswered
  dsimp only at hanswer hanswered
  rw [page_eq_take hsorted, hl.rest_eq] at hanswer hanswered
  refine ⟨s', receiving, ?_, hanswered⟩
  unfold BootstrapServer.run
  rw [hrequest, hmessage]
  refine ((if_neg Bool.false_ne_true).trans (if_neg hmax)).trans ?_
  exact (hdispatch _ rfl).trans hanswer

-- What the batch was is what the call delivers, and what the next one goes on after.
theorem BatchRead.delivers (hsorted : keys.Pairwise fun a b => place a < place b)
    {size : Nat} (hsize : 0 < size) {rest : List α} (hl : Resting type place keys cursor rest l)
    {c : BootstrapClient} {server : BootstrapServer} {receiving : Bool}
    (hread : BatchRead type cursor batchOf ((rest.take size).map entry)
      (cursorAfter place (cursor l.client.next l.client.nextHeight) (rest.take size)) c)
    (hanswered : Answered (some type) (rest.take size).length server receiving) :
    Delivers type place keys cursor entry batchOf size rest ⟨c, true, [], server, receiving⟩ := by
  refine ⟨hread.errorCode, hread.batch_eq, ?_, ?_⟩
  · rintro rfl
    exact hread.finished.trans (decide_eq_true (by simp))
  · intro hne
    have hpos : (rest.take size).length ≠ 0 := by
      have hlength := List.length_pos_of_ne_nil hne
      rw [List.length_take]
      omega
    constructor
    · rfl
    · exact hanswered.receiving.trans (decide_eq_true hpos)
    · exact hread.errorCode
    · exact hread.clientType
    · refine hread.finished.trans (decide_eq_false fun hnil => hpos ?_)
      rw [List.map_eq_nil_iff.mp hnil]
      rfl
    · dsimp only
      rw [hanswered.type]
      rfl
    · exact hanswered.finished.trans (decide_eq_false hpos)
    · have hcursor := entriesFrom_cursorAfter hsorted size
        (cursor l.client.next l.client.nextHeight)
      rw [page_eq_take hsorted, hl.rest_eq, ← hread.cursor_eq] at hcursor
      exact hcursor

-- The page that is still to come is at or after the cursor.
theorem Resting.ascends (hsorted : keys.Pairwise fun a b => place a < place b) {rest : List α}
    (hl : Resting type place keys cursor rest l) (size : Nat) :
    Ascends place (cursor l.client.next l.client.nextHeight) (rest.take size) ∧
      ∀ key ∈ rest.take size, key ∈ keys := by
  rw [← hl.rest_eq, ← page_eq_take hsorted]
  exact ⟨page_ascends _ _, fun key hmem => mem_of_mem_page hmem⟩

end Pages

section Accounts

variable {env : Env} {t : BootstrapTables} {l : BootstrapLink}

-- What the server sends for an account.
def accountEntry (t : BootstrapTables) (account : Account) : BootstrapAccount :=
  match t.accounts.get account with
  | some info => ⟨account, info.head, UInt64.ofNat info.headHeight⟩
  | none => BootstrapServer.endOfAccounts

abbrev BootstrapTables.accountKeys (t : BootstrapTables) : List Account :=
  t.accounts.inOrder accountPlace accountPlace_injective

-- There is an account after each one, and the heads are below the mark of a batch's end.
def BootstrapTables.AccountsSendable (t : BootstrapTables) : Prop :=
  ∀ account info, t.accounts.get account = some info →
    account.toNat + 1 < 2 ^ 256 ∧ info.headHeight < INVALID_HEIGHT

theorem accountKeys_sorted (t : BootstrapTables) :
    t.accountKeys.Pairwise fun a b => accountPlace a < accountPlace b :=
  t.accounts.pairwise_inOrder accountPlace_injective

theorem accountEntry_of_mem {account : Account} (h : account ∈ t.accountKeys) :
    ∃ info, t.accounts.get account = some info ∧
      accountEntry t account = ⟨account, info.head, UInt64.ofNat info.headHeight⟩ := by
  obtain ⟨info, hinfo⟩ := (t.accounts.mem_inOrder accountPlace_injective account).mp h
  exact ⟨info, hinfo, by rw [accountEntry, hinfo]⟩

theorem serves_accounts (ht : t.AccountsSendable) : Serves (BootstrapServer.nextAccount t)
    accountPlace t.accountKeys accountCursor
    (BootstrapAccount.serialize ∘ accountEntry t) where
  missing s h := by
    have hnone : t.nextAccountInfo s.next = none := by
      rw [BootstrapTables.nextAccountInfo, h]
      rfl
    rw [BootstrapServer.nextAccount, hnone]
  present s account h := by
    obtain ⟨info, hinfo, hentry⟩ := accountEntry_of_mem (List.mem_of_find?_eq_some h)
    have hsome : t.nextAccountInfo s.next = some (account, info) := by
      rw [BootstrapTables.nextAccountInfo, h]
      simp [hinfo]
    refine ⟨account + 1, s.height, ?_, account_next (ht account info hinfo).1⟩
    rw [BootstrapServer.nextAccount, hsome, Function.comp_apply, hentry]

-- One `Run` of a FULL session.
theorem run_accounts (ht : t.AccountsSendable) (rest : List Account) (l : BootstrapLink)
    (h : Resting .full accountPlace t.accountKeys accountCursor rest l) :
    ∃ l', l.run env t = .ok l' ∧ Delivers .full accountPlace t.accountKeys accountCursor
      (accountEntry t) BootstrapClient.accountBatch MAX_ACCOUNTS rest l' := by
  have hsorted := accountKeys_sorted t
  obtain ⟨server, receiving, hserver, hanswered⟩ := (serves_accounts ht).run hsorted
    (fun s hs => by rw [hs]; rfl) (by decide) h
  rw [BootstrapClient.maxSize_accounts (by decide)] at hserver hanswered
  obtain ⟨hascends, hmem⟩ := h.ascends hsorted MAX_ACCOUNTS
  have hplace : ∀ account ∈ rest.take MAX_ACCOUNTS,
      (accountEntry t account).place = accountPlace account := by
    intro account haccount
    obtain ⟨info, -, hentry⟩ := accountEntry_of_mem (hmem account haccount)
    rw [hentry]
  have hready : AwaitsAccounts ((rest.take MAX_ACCOUNTS).map (accountEntry t))
      (cursorAfter accountPlace (accountPlace l.client.next) (rest.take MAX_ACCOUNTS))
      (⟨l.client, []⟩ : BootstrapSession).begin_.client
      ((rest.take MAX_ACCOUNTS).map (accountEntry t)) := by
    constructor
    · exact ⟨rfl, h.finished, rfl⟩
    · exact h.clientType
    · rfl
    · rw [List.length_map]
      exact List.length_take_le _ _
    · exact hascends.map hplace
    · intro a ha
      obtain ⟨account, haccount, rfl⟩ := List.mem_map.mp ha
      obtain ⟨info, hinfo, hentry⟩ := accountEntry_of_mem (hmem account haccount)
      obtain ⟨hlt, hheight⟩ := ht account info hinfo
      rw [hentry]
      refine ⟨hlt, fun hinvalid => ?_⟩
      have hnat := congrArg UInt64.toNat hinvalid
      unfold INVALID_HEIGHT at hheight
      rw [invalidHeight, INVALID_HEIGHT,
        UInt64.toNat_ofNat_of_lt' (show info.headHeight < 2 ^ 64 by omega),
        UInt64.toNat_ofNat_of_lt' (by decide)] at hnat
      omega
    · exact cursorAfter_map hplace _
  rw [← List.map_map] at hserver
  obtain ⟨c, hrun, hread⟩ := run_entries (fun a => by rw [a.serialize_length]; decide)
    (fun c a rest stream hc => hc.next stream) (fun c stream hc => hc.ends stream)
    h.stream h.receiving hserver hready
  exact ⟨_, hrun, hread.delivers hsorted (by decide) h hanswered⟩

end Accounts

section Forks

variable {env : Env} {t : BootstrapTables} {l : BootstrapLink}

abbrev BootstrapTables.forkKeys (t : BootstrapTables) : List (Account × UInt64) :=
  t.forks.inOrder forkPlace forkPlace_injective

-- Each entry is a fork of verified blocks, under their account and height.
def BootstrapTables.ForksSendable (env : Env) (t : BootstrapTables) : Prop :=
  ∀ account height first second, t.forks.get (account, height) = some (first, second) →
    first.account = account ∧ first.height = height.toNat ∧ first.Forking env second

instance : Inhabited Block := ⟨.ad ⟨.invalid, 0, 0, 0, 0, 0, 0, 0, 0, 0, 0⟩⟩

-- The two blocks of an entry.
def forkEntry (t : BootstrapTables) (key : Account × UInt64) : Block × Block :=
  (t.forks.get key).getD default

theorem forkKeys_sorted (t : BootstrapTables) :
    t.forkKeys.Pairwise fun a b => forkPlace a < forkPlace b :=
  t.forks.pairwise_inOrder forkPlace_injective

theorem forkEntry_of_mem (ht : t.ForksSendable env) {key : Account × UInt64}
    (h : key ∈ t.forkKeys) : t.forks.get key = some (forkEntry t key) ∧
      (forkEntry t key).1.place = forkPlace key ∧
      (forkEntry t key).1.Forking env (forkEntry t key).2 := by
  obtain ⟨⟨first, second⟩, hfork⟩ := (t.forks.mem_inOrder forkPlace_injective key).mp h
  have hentry : forkEntry t key = (first, second) := by
    rw [forkEntry, hfork]
    rfl
  obtain ⟨haccount, hheight, hforking⟩ := ht key.1 key.2 first second hfork
  rw [hentry]
  refine ⟨hfork, ?_, hforking⟩
  rw [Block.place_eq, haccount, hheight]
  rfl

theorem fork_next {account : Account} {height : UInt64} (h : height ≠ invalidHeight) :
    forkPlace (account, height + 1) = forkPlace (account, height) + 1 := by
  have hlt := height.toNat_lt
  have hne : height.toNat ≠ 2 ^ 64 - 1 := fun hlast => h (UInt64.toNat_inj.mp hlast)
  have hsum : (height + 1).toNat = height.toNat + 1 := by
    rw [UInt64.toNat_add]
    exact Nat.mod_eq_of_lt (by simp; omega)
  rw [forkPlace_eq, forkPlace_eq, hsum]
  omega

theorem serves_forks (ht : t.ForksSendable env) : Serves (BootstrapServer.nextFork t)
    forkPlace t.forkKeys forkCursor (writeFork ∘ forkEntry t) where
  missing s h := by
    have hnone : t.nextFork s.next s.height = none := by
      rw [BootstrapTables.nextFork, h]
      rfl
    rw [BootstrapServer.nextFork, hnone]
  present s key h := by
    obtain ⟨hfork, -, hforking⟩ := forkEntry_of_mem ht (List.mem_of_find?_eq_some h)
    obtain ⟨account, height⟩ := key
    obtain ⟨-, hheight, -⟩ := ht account height (forkEntry t (account, height)).1
      (forkEntry t (account, height)).2 hfork
    have hsome : t.nextFork s.next s.height = some ((account, height), forkEntry t (account, height)) := by
      rw [BootstrapTables.nextFork, h]
      simp [hfork]
    have hne : height ≠ invalidHeight := by
      intro hlast
      have hbelow := hforking.below
      rw [hheight, hlast] at hbelow
      exact absurd hbelow (by decide)
    refine ⟨account, height + 1, ?_, fork_next hne⟩
    rw [BootstrapServer.nextFork, hsome]
    dsimp only
    rw [if_neg hne]
    rfl

-- One `Run` of a FORK session.
theorem run_forks (ht : t.ForksSendable env) (rest : List (Account × UInt64)) (l : BootstrapLink)
    (h : Resting .fork forkPlace t.forkKeys forkCursor rest l) :
    ∃ l', l.run env t = .ok l' ∧ Delivers .fork forkPlace t.forkKeys forkCursor
      (fun key => (some (forkEntry t key).1, some (forkEntry t key).2)) BootstrapClient.forkBatch
      MAX_FORKS rest l' := by
  have hsorted := forkKeys_sorted t
  obtain ⟨server, receiving, hserver, hanswered⟩ := (serves_forks ht).run hsorted
    (fun s hs => by rw [hs]; rfl) (by decide) h
  rw [BootstrapClient.maxSize_forks] at hserver hanswered
  obtain ⟨hascends, hmem⟩ := h.ascends hsorted MAX_FORKS
  have hplace : ∀ key ∈ rest.take MAX_FORKS, (forkEntry t key).1.place = forkPlace key :=
    fun key hkey => (forkEntry_of_mem ht (hmem key hkey)).2.1
  have hready : AwaitsForks env ((rest.take MAX_FORKS).map (forkEntry t))
      (cursorAfter forkPlace (forkCursor l.client.next l.client.nextHeight) (rest.take MAX_FORKS))
      (⟨l.client, []⟩ : BootstrapSession).begin_.client
      ((rest.take MAX_FORKS).map (forkEntry t)) := by
    constructor
    · exact ⟨rfl, h.finished, rfl⟩
    · exact h.clientType
    · rfl
    · rw [List.length_map]
      exact List.length_take_le _ _
    · exact Ascends.map (f := forkEntry t) hplace hascends
    · intro fork hfork
      obtain ⟨key, hkey, rfl⟩ := List.mem_map.mp hfork
      exact (forkEntry_of_mem ht (hmem key hkey)).2.2
    · exact fun hpos => absurd hpos (Nat.lt_irrefl 0)
    · exact cursorAfter_map (f := forkEntry t) hplace _
  rw [← List.map_map] at hserver
  have hwrite (fork : Block × Block) : 0 < (writeFork fork).length := by
    have hfirst := fork.1.serialize_length
    rw [← Prod.mk.eta (p := fork), writeFork_eq, List.length_append, List.length_append]
    omega
  obtain ⟨c, hrun, hread⟩ := run_entries hwrite
    (fun c fork rest stream hc => hc.next stream) (fun c stream hc => hc.ends stream)
    h.stream h.receiving hserver hready
  rw [List.map_map] at hread
  exact ⟨_, hrun, hread.delivers hsorted (by decide) h hanswered⟩

end Forks

section Sessions

variable {α β : Type}

-- Driven by any calls, a session takes the next `size` entries with each run, and is finished
-- with the first run that finds no more.
def SessionEnumerates (env : Env) (t : BootstrapTables) (type : BootstrapType)
    (batch : BootstrapClient → List β) (size : Nat) (entries : List β) : Prop :=
  ∀ calls : List BootstrapCall, ∃ l, (BootstrapLink.create type).drive env t batch calls =
      .ok (l, entries.take (calls.count .run * size)) ∧
    l.client.errorCode = none ∧
    (l.client.finished = true ↔
      0 < calls.count .run ∧ entries.length ≤ (calls.count .run - 1) * size)

theorem enumerates_of_run {env : Env} {t : BootstrapTables} {type : BootstrapType} {place : α → Nat}
    {keys : List α} {cursor : Account → UInt64 → Nat} {entry : α → β}
    {batch : BootstrapClient → List β} {size : Nat} (hcursor : cursor 0 0 = 0)
    (hrun : ∀ rest l, Resting type place keys cursor rest l → ∃ l',
      l.run env t = .ok l' ∧ Delivers type place keys cursor entry batch size rest l') :
    SessionEnumerates env t type batch size (keys.map entry) := by
  intro calls
  have hresting : Resting type place keys cursor keys (.create type) := by
    refine ⟨rfl, rfl, rfl, rfl, rfl, rfl, rfl, ?_⟩
    change entriesFrom place keys (cursor 0 0) = keys
    rw [hcursor, entriesFrom_zero]
  obtain ⟨l, hdrive, herror, hfinished⟩ := drive_of_run hrun calls hresting
  rw [List.length_map, ← List.map_take]
  exact ⟨l, hdrive, herror, hfinished⟩

-- A FULL session delivers all accounts and a FORK session all forks, once each and in order,
-- whatever their number, and then it is finished.
theorem bootstrap_enumerates (env : Env) (t : BootstrapTables) (haccounts : t.AccountsSendable)
    (hforks : t.ForksSendable env) :
    (∃ entries : List BootstrapAccount,
      (entries.Pairwise fun a b => a.account < b.account) ∧
      (∀ a, a ∈ entries ↔ ∃ info, t.accounts.get a.account = some info ∧ a.head = info.head ∧
        a.height.toNat = info.headHeight) ∧
      SessionEnumerates env t .full BootstrapClient.accountBatch MAX_ACCOUNTS entries) ∧
    ∃ forks : List (Block × Block),
      (forks.Pairwise fun a b => EntryPosition.Before (a.1.account, a.1.height)
        (b.1.account, b.1.height)) ∧
      (∀ fork, fork ∈ forks ↔ ∃ key, t.forks.get key = some fork) ∧
      SessionEnumerates env t .fork BootstrapClient.forkBatch MAX_FORKS
        (forks.map fun fork => (some fork.1, some fork.2)) := by
  constructor
  · refine ⟨t.accountKeys.map (accountEntry t), ?_, ?_,
      enumerates_of_run rfl (run_accounts haccounts)⟩
    · rw [List.pairwise_map]
      refine (accountKeys_sorted t).imp_of_mem fun {a b} ha hb hlt => ?_
      obtain ⟨infoA, -, hentryA⟩ := accountEntry_of_mem ha
      obtain ⟨infoB, -, hentryB⟩ := accountEntry_of_mem hb
      rw [hentryA, hentryB, BitVec.lt_def]
      exact hlt
    · intro a
      rw [List.mem_map]
      constructor
      · rintro ⟨account, hmem, rfl⟩
        obtain ⟨info, hinfo, hentry⟩ := accountEntry_of_mem hmem
        have hheight := (haccounts account info hinfo).2
        unfold INVALID_HEIGHT at hheight
        rw [hentry]
        exact ⟨info, hinfo, rfl, UInt64.toNat_ofNat_of_lt' (show info.headHeight < 2 ^ 64 by omega)⟩
      · rintro ⟨info, hinfo, hhead, hheight⟩
        have hmem := (t.accounts.mem_inOrder accountPlace_injective a.account).mpr ⟨info, hinfo⟩
        refine ⟨a.account, hmem, ?_⟩
        rw [accountEntry, hinfo]
        dsimp only
        rw [← hhead, ← hheight, UInt64.ofNat_toNat]
  · have hlist : (t.forkKeys.map (forkEntry t)).map (fun fork => (some fork.1, some fork.2)) =
        t.forkKeys.map fun key => (some (forkEntry t key).1, some (forkEntry t key).2) := by
      rw [List.map_map]
      rfl
    refine ⟨t.forkKeys.map (forkEntry t), ?_, ?_, ?_⟩
    · rw [List.pairwise_map]
      refine (forkKeys_sorted t).imp_of_mem fun {a b} ha hb hlt => ?_
      obtain ⟨-, hplaceA, -⟩ := forkEntry_of_mem hforks ha
      obtain ⟨-, hplaceB, -⟩ := forkEntry_of_mem hforks hb
      rw [← hplaceA, ← hplaceB, Block.place_eq, Block.place_eq] at hlt
      have hheight := (forkEntry t b).1.height_lt
      by_cases haccount : (forkEntry t a).1.account = (forkEntry t b).1.account
      · rw [haccount] at hlt
        exact .inr ⟨haccount, by dsimp only; omega⟩
      · refine .inl ?_
        have hne : (forkEntry t a).1.account.toNat ≠ (forkEntry t b).1.account.toNat :=
          fun hsame => haccount (BitVec.eq_of_toNat_eq hsame)
        rw [BitVec.lt_def]
        dsimp only
        omega
    · intro fork
      rw [List.mem_map]
      constructor
      · rintro ⟨key, hmem, rfl⟩
        exact ⟨key, (forkEntry_of_mem hforks hmem).1⟩
      · rintro ⟨key, hfork⟩
        refine ⟨key, (t.forks.mem_inOrder forkPlace_injective key).mpr ⟨fork, hfork⟩, ?_⟩
        rw [forkEntry, hfork]
        rfl
    · rw [hlist]
      exact enumerates_of_run rfl (run_forks hforks)

end Sessions

section Samples

private def sampleInfo (headHeight : Nat) : AccountInfo :=
  ⟨.txBlock, 0, headHeight, 0, INVALID_HEIGHT, 5, 5⟩

private def sampleFork : Block × Block :=
  (sampleTx .change 1 1 0 0 1 0 0 0 0, sampleTx .change 1 1 1 0 1 0 0 0 0)

private def sampleTables (headHeight : Nat) : BootstrapTables where
  accounts := Table.empty.put 1 (sampleInfo headHeight)
  forks := Table.empty.put (1, 0) sampleFork

private theorem sampleTables_accounts {headHeight : Nat} {account : Account} {info : AccountInfo}
    (h : (sampleTables headHeight).accounts.get account = some info) :
    account = 1 ∧ info = sampleInfo headHeight := by
  rw [sampleTables, Table.get_put] at h
  split at h
  · exact ⟨‹_›, (Option.some.inj h).symm⟩
  · rw [Table.get_empty] at h
    cases h

private theorem sampleTables_forks (headHeight : Nat) :
    (sampleTables headHeight).ForksSendable sampleEnv := by
  intro account height first second h
  rw [sampleTables, Table.get_put] at h
  split at h
  · rename_i hkey
    obtain ⟨rfl, rfl⟩ := Prod.mk.injEq .. ▸ hkey
    obtain ⟨rfl, rfl⟩ := Prod.mk.injEq .. ▸ Option.some.inj h
    refine ⟨rfl, rfl, ⟨?_, rfl⟩, ⟨?_, rfl⟩, by decide, by decide⟩
    · exact ⟨by decide, by decide, by decide⟩
    · exact ⟨by decide, by decide, by decide⟩
  · rw [Table.get_empty] at h
    cases h

-- A session that is over, without an error, and has delivered nothing.
private def overEmpty : Access (BootstrapLink × List BootstrapAccount) → Bool
  | .ok (l, delivered) => delivered = [] && l.client.finished && l.client.errorCode = none
  | .error _ => false

-- An account whose head is at the height that marks the end of a batch ends the session.
theorem end_mark_stored : ∃ (t : BootstrapTables) (info : AccountInfo),
    t.accounts.get 1 = some info ∧ t.ForksSendable sampleEnv ∧
      (∀ account, (t.accounts.get account).isSome → account.toNat + 1 < 2 ^ 256) ∧
      ∃ l, (BootstrapLink.create .full).drive sampleEnv t BootstrapClient.accountBatch [.run] =
        .ok (l, []) ∧ l.client.finished = true ∧ l.client.errorCode = none := by
  refine ⟨sampleTables INVALID_HEIGHT, sampleInfo INVALID_HEIGHT, ?_, sampleTables_forks _, ?_, ?_⟩
  · rw [sampleTables, Table.get_put, if_pos rfl]
  · intro account h
    obtain ⟨info, hinfo⟩ := Option.isSome_iff_exists.mp h
    rw [(sampleTables_accounts hinfo).1]
    decide
  · have hdrive : overEmpty ((BootstrapLink.create .full).drive sampleEnv
        (sampleTables INVALID_HEIGHT) BootstrapClient.accountBatch [.run]) = true := by
      decide +kernel
    unfold overEmpty at hdrive
    split at hdrive
    · rename_i l delivered hok
      simp only [Bool.and_eq_true, decide_eq_true_eq] at hdrive
      obtain ⟨⟨rfl, hfinished⟩, herror⟩ := hdrive
      exact ⟨l, hok, hfinished, herror⟩
    · cases hdrive

-- A list that has each of `count` elements once.
private theorem length_of_numbered {ν : Type} {value : Nat → ν} {count : Nat} {l : List ν}
    (hnodup : l.Nodup)
    (hvalue : ∀ m < count, ∀ n < count, value m = value n → m = n)
    (hmem : ∀ a, a ∈ l ↔ ∃ n < count, a = value n) : l.length = count := by
  have hperm : l.Perm ((List.range count).map value) := by
    refine (List.perm_ext_iff_of_nodup hnodup ?_).mpr fun a => ?_
    · exact List.Nodup.map_on (fun m hm n hn => hvalue m (List.mem_range.mp hm) n
        (List.mem_range.mp hn)) List.nodup_range
    · rw [hmem, List.mem_map]
      simp only [List.mem_range, eq_comm]
  rw [hperm.length_eq, List.length_map, List.length_range]

-- Many accounts, and forks at two heights of each account.
private def crowdAccount (n : Nat) : Account := BitVec.ofNat 256 (n + 1)

private def crowdKey (n : Nat) : Account × UInt64 := (crowdAccount (n / 2), UInt64.ofNat (n % 2))

private def crowdFork (n : Nat) : Block × Block :=
  (sampleTx .change 1 1 0 (crowdKey n).2 (crowdKey n).1 0 0 0 0,
    sampleTx .change 1 1 1 (crowdKey n).2 (crowdKey n).1 0 0 0 0)

private def crowdTables (accounts forks : Nat) : BootstrapTables where
  accounts := .filled crowdAccount (fun _ => sampleInfo 7) accounts
  forks := .filled crowdKey crowdFork forks

section Crowd

variable {accounts forks : Nat}

private theorem crowdAccount_toNat {n : Nat} (h : n < 2 ^ 64) : (crowdAccount n).toNat = n + 1 :=
  BitVec.toNat_ofNat .. |>.trans (Nat.mod_eq_of_lt (by omega))

private theorem crowdAccount_inj {m n : Nat} (hm : m < 2 ^ 64) (hn : n < 2 ^ 64)
    (h : crowdAccount m = crowdAccount n) : m = n := by
  have hnat := congrArg BitVec.toNat h
  rw [crowdAccount_toNat hm, crowdAccount_toNat hn] at hnat
  omega

private theorem crowdKey_inj {m n : Nat} (hm : m < 2 ^ 64) (hn : n < 2 ^ 64)
    (h : crowdKey m = crowdKey n) : m = n := by
  obtain ⟨haccount, hheight⟩ := Prod.mk.injEq .. ▸ h
  have hhalf := crowdAccount_inj (by omega) (by omega) haccount
  have hrest := congrArg UInt64.toNat hheight
  rw [UInt64.toNat_ofNat', UInt64.toNat_ofNat'] at hrest
  omega

private theorem crowdTables_accounts (h : accounts < 2 ^ 64) {account : Account}
    {info : AccountInfo} : (crowdTables accounts forks).accounts.get account = some info ↔
      ∃ n < accounts, account = crowdAccount n ∧ info = sampleInfo 7 :=
  Table.get_filled fun _ hm _ hn => crowdAccount_inj (hm.trans h) (hn.trans h)

private theorem crowdTables_forks (h : forks < 2 ^ 64) {key : Account × UInt64}
    {fork : Block × Block} : (crowdTables accounts forks).forks.get key = some fork ↔
      ∃ n < forks, key = crowdKey n ∧ fork = crowdFork n :=
  Table.get_filled fun _ hm _ hn => crowdKey_inj (hm.trans h) (hn.trans h)

private theorem crowdTables_accountsSendable (h : accounts < 2 ^ 64) :
    (crowdTables accounts forks).AccountsSendable := by
  intro account info hinfo
  obtain ⟨n, hn, rfl, rfl⟩ := (crowdTables_accounts h).mp hinfo
  rw [crowdAccount_toNat (hn.trans h)]
  exact ⟨by omega, by decide⟩

private theorem crowdTables_forksSendable (h : forks < 2 ^ 64) :
    (crowdTables accounts forks).ForksSendable sampleEnv := by
  intro account height first second hfork
  obtain ⟨n, hn, hkey, hvalue⟩ := (crowdTables_forks h).mp hfork
  obtain ⟨rfl, rfl⟩ := Prod.mk.injEq .. ▸ hvalue
  obtain ⟨rfl, rfl⟩ := Prod.mk.injEq .. ▸ hkey
  have hopcode : TxBlock.checkOpcode .change = false := by decide
  have hcredit : UInt16.ofNat 1 ≠ 0 := by decide
  have hcounter : UInt32.ofNat 1 ≠ 0 := by decide
  refine ⟨rfl, rfl, ⟨⟨hopcode, hcredit, hcounter⟩, rfl⟩, ⟨⟨hopcode, hcredit, hcounter⟩, rfl⟩, ?_, ?_⟩
  · have hne : (crowdFork n).1 ≠ (crowdFork n).2 := fun heq =>
      absurd (congrArg Block.timestamp heq) (show (0 : Nat) ≠ 1 by decide)
    have haccount : (crowdFork n).1.account = (crowdFork n).2.account := rfl
    have hheight : (crowdFork n).1.height = (crowdFork n).2.height := rfl
    change (crowdFork n).1.forkWith (crowdFork n).2 = true
    simp [Block.forkWith, haccount, hheight, hne]
  · change (UInt64.ofNat (n % 2)).toNat < INVALID_HEIGHT
    rw [UInt64.toNat_ofNat', INVALID_HEIGHT]
    omega

end Crowd

-- The accounts take two batches and the forks take two.
theorem bootstrap_enumerates_sample :
    (∃ entries : List BootstrapAccount, entries.length = 9000 ∧
      SessionEnumerates sampleEnv (crowdTables 9000 1500) .full BootstrapClient.accountBatch
        MAX_ACCOUNTS entries) ∧
    ∃ forks : List (Block × Block), forks.length = 1500 ∧
      SessionEnumerates sampleEnv (crowdTables 9000 1500) .fork BootstrapClient.forkBatch MAX_FORKS
        (forks.map fun fork => (some fork.1, some fork.2)) := by
  obtain ⟨⟨entries, hsorted, hmem, hsession⟩, forks, hforks, hmemForks, hforkSession⟩ :=
    bootstrap_enumerates sampleEnv (crowdTables 9000 1500)
      (crowdTables_accountsSendable (by omega)) (crowdTables_forksSendable (by omega))
  refine ⟨⟨entries, ?_, hsession⟩, forks, ?_, hforkSession⟩
  · apply @length_of_numbered _ fun n => ⟨crowdAccount n, 5, 7⟩
    · refine hsorted.imp fun {a b} h heq => ?_
      rw [heq] at h
      exact BitVec.lt_irrefl _ h
    · exact fun m hm n hn h =>
        crowdAccount_inj (by omega) (by omega) (congrArg BootstrapAccount.account h)
    · intro a
      rw [hmem]
      constructor
      · rintro ⟨info, hinfo, hhead, hheight⟩
        obtain ⟨n, hn, haccount, rfl⟩ := (crowdTables_accounts (by omega)).mp hinfo
        obtain ⟨account, head, height⟩ := a
        exact ⟨n, hn, BootstrapAccount.mk.injEq .. ▸ ⟨haccount, hhead, UInt64.toNat_inj.mp hheight⟩⟩
      · rintro ⟨n, hn, rfl⟩
        exact ⟨_, (crowdTables_accounts (by omega)).mpr ⟨n, hn, rfl, rfl⟩, rfl, rfl⟩
  · apply @length_of_numbered _ crowdFork
    · refine hforks.imp fun {a b} h heq => ?_
      rw [heq, EntryPosition.Before] at h
      rcases h with h | ⟨-, h⟩
      · exact BitVec.lt_irrefl _ h
      · exact Nat.lt_irrefl _ h
    · intro m hm n hn h
      have hfirst := congrArg Prod.fst h
      refine crowdKey_inj (by omega) (by omega) (Prod.ext (congrArg Block.account hfirst) ?_)
      exact UInt64.toNat_inj.mp (congrArg Block.height hfirst)
    · intro fork
      rw [hmemForks]
      constructor
      · rintro ⟨key, hkey⟩
        obtain ⟨n, hn, -, hfork⟩ := (crowdTables_forks (by omega)).mp hkey
        exact ⟨n, hn, hfork⟩
      · rintro ⟨n, hn, rfl⟩
        exact ⟨_, (crowdTables_forks (by omega)).mpr ⟨n, hn, rfl, rfl⟩⟩

end Samples

end Raicoin
