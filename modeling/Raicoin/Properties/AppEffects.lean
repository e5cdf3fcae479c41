import Raicoin.App.Effects
import Raicoin.Properties.AliasSearch
import Raicoin.Properties.Extensions
import Raicoin.Token.App
import Raicoin.Token.SwapBook

-- The alias application and the token application hand each block of an account's chain to their
-- handlers once, in the order of the heights.
namespace Raicoin

open Lib

section Alias

-- The guard of `Alias::Process`.
def AliasLedger.reentry (l : AliasLedger) (block : Block) : Bool :=
  match l.aliasInfoGet block.account with
  | none => false
  | some info => info.head ≥ UInt64.ofNat block.height

def aliasApp (env : Env) : ExtensionApp (AliasCall → Bool) AliasLedger where
  hooks := aliasHooks env
  carries block := (aliasExtensions block).isSome
  reentry block l := l.reentry block

-- What the ledger holds of an account: its names, and a row for each block that has been handled.
structure AliasRecord where
  info : Option AliasInfo
  blocks : UInt64 → Option AliasBlock

def aliasRecords (env : Env) : Records AliasLedger AliasRecord where
  none := ⟨.none, fun _ => .none⟩
  own l account := ⟨l.aliasInfoGet account, fun height => l.blocks.get (account, height)⟩
  handle block held :=
    let operation := ExtensionAlias.ofExtensions ((aliasExtensions block).getD [])
    let info := held.info.getD .new
    let height := UInt64.ofNat block.height
    ⟨some (AliasLedger.infoAfter height info operation),
      Function.update held.blocks height (some (AliasLedger.blockOf env block info operation))⟩
  head held := held.info.map fun info => info.head.toNat

namespace AliasLedger

variable {env : Env} {fails : AliasCall → Bool} {l l' : AliasLedger} {block : Block}
  {extensions : ExtensionList}

theorem height_toNat (block : Block) : (UInt64.ofNat block.height).toNat = block.height := by
  refine UInt64.toNat_ofNat_of_lt' ?_
  cases block with
  | tx block => exact block.height.toNat_lt
  | rep block => exact block.height.toNat_lt
  | ad block => exact block.height.toNat_lt

theorem reentry_iff : l.reentry block = true ↔
    ∃ height, (l.aliasInfoGet block.account).map (fun info => info.head.toNat) = some height ∧
      block.height ≤ height := by
  unfold reentry
  cases l.aliasInfoGet block.account with
  | none => simp
  | some info =>
      dsimp only [Option.map_some]
      rw [decide_eq_true_eq, ge_iff_le, UInt64.le_iff_toNat_le, height_toNat]
      simp

-- What has been read has texts whose sizes were written.
theorem aliasInfoGet_short {account : Account} {info : AliasInfo}
    (hget : l.aliasInfoGet account = some info) : info.Short := by
  unfold aliasInfoGet at hget
  obtain ⟨bytes, -, hparse⟩ := Option.bind_eq_some_iff.mp hget
  unfold ByteTables.parse at hparse
  split at hparse
  · next value rest hread =>
      obtain rfl := Option.some.inj hparse
      exact (AliasInfo.deserialize_inverts.sound _ _ _ hread).1
  · cases hparse

-- The tables of the texts are all that an operation changes.
theorem applyIndex_kept {account : Account} {info : AliasInfo}
    {operation : Except ErrorCode ExtensionAlias}
    (happly : l.applyIndex fails account info operation = .ok l') :
    l'.infos = l.infos ∧ l'.blocks = l.blocks := by
  unfold applyIndex at happly
  split at happly
  · obtain ⟨index, -, hput⟩ := (Except.bind_eq_ok _ _ _).mp happly
    rw [← Except.ok.inj hput]
    exact ⟨rfl, rfl⟩
  · obtain ⟨index, -, hput⟩ := (Except.bind_eq_ok _ _ _).mp happly
    rw [← Except.ok.inj hput]
    exact ⟨rfl, rfl⟩
  · rw [← Except.ok.inj happly]
    exact ⟨rfl, rfl⟩

theorem infoAfter_head (height : UInt64) (info : AliasInfo)
    (operation : Except ErrorCode ExtensionAlias) : (infoAfter height info operation).head = height := by
  unfold infoAfter
  split <;> rfl

theorem aliasInfoPut_ok {account : Account} {info : AliasInfo} (hshort : info.Short)
    (hput : l.aliasInfoPut fails account info = some l') : l'.blocks = l.blocks ∧
      ∀ other, l'.aliasInfoGet other = if other = account then some info else l.aliasInfoGet other := by
  unfold aliasInfoPut at hput
  split at hput
  · cases hput
  · rw [← Option.some.inj hput]
    refine ⟨rfl, fun other => ?_⟩
    unfold aliasInfoGet
    rw [Table.get_put]
    by_cases hother : other = account
    · rw [if_pos hother, if_pos hother, Option.bind_eq_bind, Option.bind_some,
        ByteTables.parse_write AliasInfo.deserialize_inverts hshort]
    · rw [if_neg hother, if_neg hother]

-- The handler brings the records of the account up to the block, and touches no others.
theorem process_own (hextensions : aliasExtensions block = some extensions)
    (hvalid : ∀ extension ∈ extensions, extension.Valid) (hreentry : l.reentry block = false)
    (hprocess : l.process env fails block extensions = .ok l') :
    (aliasRecords env).own l' = Function.update ((aliasRecords env).own l) block.account
      ((aliasRecords env).handle block ((aliasRecords env).own l block.account)) := by
  have hopen : ¬((l.aliasInfoGet block.account).isSome ∧
      ((l.aliasInfoGet block.account).getD .new).head ≥ UInt64.ofNat block.height) := by
    unfold reentry at hreentry
    rintro ⟨hsome, hge⟩
    obtain ⟨info, hinfo⟩ := Option.isSome_iff_exists.mp hsome
    rw [hinfo] at hreentry hge
    exact of_decide_eq_false hreentry hge
  unfold AliasLedger.process at hprocess
  dsimp only at hprocess
  rw [if_neg hopen] at hprocess
  simp only [Except.bind_eq_ok, orReturn_eq_ok] at hprocess
  obtain ⟨applied, happly, recorded, hrecord, hput⟩ := hprocess
  have hold : ((l.aliasInfoGet block.account).getD .new).Short := by
    cases hget : l.aliasInfoGet block.account with
    | none => exact ⟨Nat.pow_pos (by decide), Nat.pow_pos (by decide)⟩
    | some info => exact aliasInfoGet_short hget
  have hshort := infoAfter_short (.ofNat block.height) hold hvalid
  obtain ⟨hinfos, hblocks⟩ := applyIndex_kept happly
  obtain ⟨hrows, hnames⟩ := aliasInfoPut_ok hshort hput
  unfold aliasBlockPut at hrecord
  split at hrecord
  · cases hrecord
  obtain rfl := Option.some.inj hrecord
  have hkept (other : Account) : ({ applied with
      blocks := applied.blocks.put (block.account, UInt64.ofNat block.height)
        (blockOf env block ((l.aliasInfoGet block.account).getD .new)
          (ExtensionAlias.ofExtensions extensions)) } : AliasLedger).aliasInfoGet other =
        l.aliasInfoGet other := by
    unfold aliasInfoGet
    rw [hinfos]
  funext other
  unfold aliasRecords
  dsimp only
  rw [hextensions, Option.getD_some, hnames, hkept]
  have hrow (height : UInt64) : l'.blocks.get (other, height) =
      if other = block.account ∧ height = UInt64.ofNat block.height then
        some (blockOf env block ((l.aliasInfoGet block.account).getD .new)
          (ExtensionAlias.ofExtensions extensions))
      else l.blocks.get (other, height) := by
    rw [hrows]
    change (applied.blocks.put _ _).get _ = _
    rw [Table.get_put, hblocks]
    simp only [Prod.mk.injEq]
  by_cases hother : other = block.account
  · subst hother
    rw [Function.update_self, if_pos rfl]
    congr 1
    funext height
    rw [hrow]
    by_cases hheight : height = UInt64.ofNat block.height
    · rw [if_pos ⟨rfl, hheight⟩, hheight, Function.update_self]
    · rw [if_neg fun h => hheight h.2, Function.update_of_ne hheight]
  · rw [Function.update_of_ne hother, if_neg hother]
    congr 1
    funext height
    rw [hrow, if_neg fun h => hother h.1]

end AliasLedger

theorem aliasExtensions_valid {block : Block} {extensions : ExtensionList}
    (h : aliasExtensions block = some extensions) : ∀ extension ∈ extensions, extension.Valid := by
  unfold aliasExtensions at h
  split at h
  · cases h
  · next object hparse =>
      split at h
      · cases h
      · next hcount =>
          obtain rfl := Option.some.inj h
          have hbytes : block.extensionBytes ≠ [] := by
            intro hempty
            rw [hempty] at hparse
            cases hparse
            exact hcount rfl
          exact ((ExtensionList.fromBytes_ok hbytes).mp hparse).2.1

section Hooks

variable {env : Env} {fails : AliasCall → Bool} {store : Store} {l l' : AliasLedger} {block : Block}
  {confirmed : Bool} {extensions : ExtensionList}

theorem aliasHooks_process (hsome : aliasExtensions block = some extensions)
    (h : (aliasHooks env).afterBlockAppend fails store block confirmed l = .ok l') :
    l.process env fails block extensions = .ok l' := by
  unfold aliasHooks at h
  dsimp only at h
  rw [hsome] at h
  obtain ⟨_, -, hprocess⟩ := (Except.bind_eq_ok _ _ _).mp h
  exact hprocess

theorem aliasHooks_skip (hnone : aliasExtensions block = none)
    (h : (aliasHooks env).afterBlockAppend fails store block confirmed l = .ok l') : l' = l := by
  unfold aliasHooks at h
  dsimp only at h
  rw [hnone] at h
  exact (Except.ok.inj h).symm

end Hooks

theorem aliasApp_guarded (env : Env) : (aliasApp env).Guarded .empty (aliasRecords env) where
  first account := rfl
  head_none := rfl
  head_handle block held := by
    change some (AliasLedger.infoAfter _ _ _).head.toNat = _
    rw [AliasLedger.infoAfter_head, AliasLedger.height_toNat]
  open_ block l hpre := by
    have hfree := (returnIf_eq_ok _ _ ()).mp hpre
    exact Bool.eq_false_iff.mpr fun hcarries => hfree ⟨rfl, hcarries⟩
  reentry block l := AliasLedger.reentry_iff
  handled refused store block confirmed l l' _ hafter hcarries hreentry := by
    obtain ⟨extensions, hsome⟩ := Option.isSome_iff_exists.mp hcarries
    exact AliasLedger.process_own hsome (aliasExtensions_valid hsome) hreentry
      (aliasHooks_process hsome hafter)
  skipped refused store block confirmed l l' _ hafter hcarries := by
    have hnone := Option.isSome_eq_false_iff.mp hcarries
    rw [aliasHooks_skip (Option.isNone_iff_eq_none.mp hnone) hafter]

end Alias

section Token

variable {env : TokenEnv} {block : Block} {l l₁ l₂ l' : TokenLedger} {content : TokenContent}

-- A block that carries anything for the token application is handed to `Token::Process`.
def tokenApp (env : Env) (content : Block → TokenContent) :
    ExtensionApp (TokenCall → Bool) TokenLedger where
  hooks := tokenHooks env content
  carries block := content block ≠ .none
  reentry block l := l.reentry block

-- Where a block stands in its account's list.
structure TokenPlace where
  previous : Nat
  hash : BlockHash
  successor : Nat

def TokenBlock.place (b : TokenBlock) : TokenPlace := ⟨b.previous, b.hash, b.successor⟩

-- What the ledger holds of an account: the head of its list, and the list.
structure TokenRecord where
  info : Option AccountTokensInfo
  blocks : Nat → Option TokenPlace

def tokenRecords (env : Env) : Records TokenLedger TokenRecord where
  none := ⟨.none, fun _ => .none⟩
  own l account :=
    ⟨l.accountsTokens.get account, fun height => (l.tokenBlocks.get (account, height)).map (·.place)⟩
  handle block held :=
    let info := held.info.getD .init
    let blocks := if info.head = INVALID_HEIGHT then held.blocks
      else Function.update held.blocks info.head ((held.blocks info.head).map fun place =>
        { place with successor := block.height })
    ⟨some ⟨block.height, info.blocks + 1⟩,
      Function.update blocks block.height (some ⟨info.head, env.hash block, INVALID_HEIGHT⟩)⟩
  head held := held.info.map AccountTokensInfo.head

-- The two tables of the lists, when a block has been put behind the others of its account.
def JournaledBy (env : TokenEnv) (block : Block) (l l' : TokenLedger) : Prop :=
  ∃ status value valueOp token,
    l'.accountsTokens =
        (l.listed (env.hash block) block status value valueOp token).accountsTokens ∧
      l'.tokenBlocks = (l.listed (env.hash block) block status value valueOp token).tokenBlocks

theorem noted_journaledBy {status : Option ErrorCode} {value : TokenValue} {valueOp : ValueOp}
    {key : Option TokenKey} :
    JournaledBy env block l (l.noted env block status value valueOp key) :=
  ⟨_, _, _, _, rfl, rfl⟩

theorem Operated.journaledBy {token : ExtensionToken} (h : Operated env block l token l') :
    JournaledBy env block l l' := by
  cases h <;> exact ⟨_, _, _, _, rfl, rfl⟩

-- The head of the list is linked to the block, and the lists of others are left.
theorem listed_place {hash : BlockHash} {status : Option ErrorCode} {value : TokenValue}
    {valueOp : ValueOp} {token : TokenKey} (account : Account) (height : Nat) :
    ((l.listed hash block status value valueOp token).tokenBlocks.get (account, height)).map
        (·.place) =
      if account = block.account ∧ height = block.height then
        some ⟨((l.accountsTokens.get block.account).getD .init).head, hash, INVALID_HEIGHT⟩
      else if account = block.account ∧
          height = ((l.accountsTokens.get block.account).getD .init).head ∧
          height ≠ INVALID_HEIGHT then
        ((l.tokenBlocks.get (account, height)).map (·.place)).map fun place =>
          { place with successor := block.height }
      else (l.tokenBlocks.get (account, height)).map (·.place) := by
  unfold TokenLedger.listed
  dsimp only
  generalize (l.accountsTokens.get block.account).getD .init = info
  rw [Table.get_put]
  by_cases hown : account = block.account ∧ height = block.height
  · rw [if_pos (Prod.ext hown.1 hown.2), if_pos hown]
    rfl
  · rw [if_neg fun heq => hown ⟨congrArg Prod.fst heq, congrArg Prod.snd heq⟩, if_neg hown]
    by_cases hhead : info.head = INVALID_HEIGHT
    · rw [if_pos hhead, if_neg fun h => h.2.2 (h.2.1.trans hhead)]
    · rw [if_neg hhead, Table.get_change]
      by_cases hplace : account = block.account ∧ height = info.head
      · rw [if_pos (Prod.ext hplace.1 hplace.2), if_pos ⟨hplace.1, hplace.2, hplace.2 ▸ hhead⟩,
          hplace.1, hplace.2, Option.map_map, Option.map_map]
        rfl
      · rw [if_neg fun heq => hplace ⟨congrArg Prod.fst heq, congrArg Prod.snd heq⟩,
          if_neg fun h => hplace ⟨h.1, h.2.1⟩]

theorem JournaledBy.own (h : JournaledBy env block l l') :
    (tokenRecords env.toEnv).own l' = Function.update ((tokenRecords env.toEnv).own l) block.account
      ((tokenRecords env.toEnv).handle block ((tokenRecords env.toEnv).own l block.account)) := by
  obtain ⟨status, value, valueOp, token, hinfos, hblocks⟩ := h
  funext account
  unfold tokenRecords
  dsimp only
  rw [hinfos, hblocks]
  have hplace := @listed_place block l (env.hash block) status value valueOp token account
  by_cases haccount : account = block.account
  · subst haccount
    rw [Function.update_self]
    congr 1
    · exact (Table.get_put _ _ _ _).trans (if_pos rfl)
    · funext height
      rw [hplace]
      generalize ((l.accountsTokens.get block.account).getD .init).head = head
      by_cases hheight : height = block.height
      · rw [if_pos ⟨rfl, hheight⟩, hheight, Function.update_self]
      · rw [if_neg fun h => hheight h.2, Function.update_of_ne hheight]
        by_cases hhead : head = INVALID_HEIGHT
        · rw [if_pos hhead, if_neg fun h => h.2.2 (h.2.1.trans hhead)]
        · rw [if_neg hhead]
          by_cases hlast : height = head
          · rw [if_pos ⟨rfl, hlast, hlast ▸ hhead⟩, hlast, Function.update_self]
          · rw [if_neg fun h => hlast h.2.1, Function.update_of_ne hlast]
  · rw [Function.update_of_ne haccount]
    congr 1
    · exact (Table.get_put _ _ _ _).trans (if_neg haccount)
    · funext height
      rw [hplace, if_neg fun h => haccount h.1, if_neg fun h => haccount h.1]

-- The lists are not touched by what is cleared away.
def SameLists (l l' : TokenLedger) : Prop :=
  l'.accountsTokens = l.accountsTokens ∧ l'.tokenBlocks = l.tokenBlocks

theorem SameLists.own {env : Env} (h : SameLists l l') :
    (tokenRecords env).own l' = (tokenRecords env).own l := by
  unfold tokenRecords
  dsimp only
  rw [h.1, h.2]

theorem SameLists.trans {l'' : TokenLedger} (h : SameLists l l') (h' : SameLists l' l'') :
    SameLists l l'' :=
  ⟨h'.1.trans h.1, h'.2.trans h.2⟩

theorem PurgedInquiries.sameLists {main : Account} {height : Nat}
    (h : PurgedInquiries main height l l') : SameLists l l' :=
  ⟨NackedInquiries.frame (fun _ _ _ _ _ => rfl) h, NackedInquiries.frame (fun _ _ _ _ _ => rfl) h⟩

theorem PurgedTakes.sameLists (h : PurgedTakes env block l l') : SameLists l l' :=
  ⟨NackedTakes.frame (fun _ _ _ => rfl) h, NackedTakes.frame (fun _ _ _ => rfl) h⟩

theorem Settled.sameLists {token : ExtensionToken} (h : Settled env block l token l₁ l') :
    SameLists l₁ l' := by
  cases h with
  | direct => exact ⟨rfl, rfl⟩
  | inquiry => exact ⟨rfl, rfl⟩
  | lateInquiry hplan hsome hpurged => exact hpurged.sameLists
  | take => exact ⟨rfl, rfl⟩
  | lateTake hplan hsome hpurged => exact hpurged.sameLists

-- Whatever comes of it, a block that has not been handled is put behind the others.
theorem ContentApplied.own (h : ContentApplied env block l content l')
    (hcontent : content ≠ .none) (hreentry : l.reentry block = false) :
    (tokenRecords env.toEnv).own l' = Function.update ((tokenRecords env.toEnv).own l) block.account
      ((tokenRecords env.toEnv).handle block ((tokenRecords env.toEnv).own l block.account)) := by
  cases h with
  | none => exact absurd rfl hcontent
  | reentry hagain =>
      rw [hreentry] at hagain
      cases hagain
  | status => exact noted_journaledBy.own
  | refused => exact noted_journaledBy.own
  | operated hawaits hreads hoperated hsettled =>
      rw [hsettled.sameLists.own]
      exact hoperated.journaledBy.own

theorem reentry_iff : l.reentry block = true ↔
    ∃ height, (l.accountsTokens.get block.account).map AccountTokensInfo.head = some height ∧
      block.height ≤ height := by
  unfold TokenLedger.reentry
  cases l.accountsTokens.get block.account with
  | none => simp
  | some info => simp

-- A block without content is not listed.
theorem afterBlockAppend_none {confirmed : Bool}
    (h : Turns (afterBlockAppend env block .none confirmed) l () l') : SameLists l l' := by
  obtain ⟨_, l₀, hcredit, hrest⟩ := h.bind
  have hsame : l = l₀ := by
    rcases hcredit.runIf with ⟨-, hcredit⟩ | ⟨-, hl⟩
    · exact hcredit.observe
    · exact hl
  obtain ⟨_, l₁, hprocess, hrest⟩ := hrest.bind
  have hskipped : l₀ = l₁ := by
    rcases hprocess.runIf with ⟨hcontent, -⟩ | ⟨-, hl⟩
    · exact absurd rfl hcontent
    · exact hl
  obtain ⟨inquiries, -, hrest⟩ := hrest.query_bind
  obtain ⟨_, l₂, hinquiries, hrest⟩ := hrest.bind
  have hfirst : SameLists l₁ l₂ := by
    rcases hinquiries.runIf with ⟨-, hpurge⟩ | ⟨-, rfl⟩
    · exact (purgeInquiryWaiting_turns (whenConfirmed_turns hpurge).2).sameLists
    · exact ⟨rfl, rfl⟩
  obtain ⟨takes, -, htakes⟩ := hrest.query_bind
  have hsecond : SameLists l₂ l' := by
    rcases htakes.runIf with ⟨-, hpurge⟩ | ⟨-, rfl⟩
    · exact (purgeTakeWaiting_turns (whenConfirmed_turns hpurge).2).sameLists
    · exact ⟨rfl, rfl⟩
  rw [hsame, hskipped]
  exact hfirst.trans hsecond

-- The handler of the hooks is `AfterBlockAppend`.
theorem tokenHooks_turns {env : Env} {content : Block → TokenContent} {refused : TokenCall → Bool}
    {store : Store} {confirmed : Bool}
    (h : (tokenHooks env content).afterBlockAppend refused store block confirmed l = .ok l') :
    Turns (afterBlockAppend ⟨env, store, refused⟩ block (content block) confirmed) l () l' := by
  unfold tokenHooks at h
  dsimp only at h
  split at h
  · next s hafter => exact ⟨_, s, hafter, rfl, Except.ok.inj h⟩
  · cases h

theorem tokenApp_guarded (env : Env) (content : Block → TokenContent) :
    (tokenApp env content).Guarded .empty (tokenRecords env) where
  first account := rfl
  head_none := rfl
  head_handle block held := rfl
  open_ block l hpre := by
    obtain ⟨_, -, hrest⟩ := (Except.bind_eq_ok _ _ _).mp hpre
    obtain ⟨_, hcontent, -⟩ := (Except.bind_eq_ok _ _ _).mp hrest
    have hnone := (returnIf_eq_ok _ _ ()).mp hcontent
    exact decide_eq_false hnone
  reentry block l := reentry_iff
  handled refused store block confirmed l l' _ hafter hcarries hreentry := by
    obtain ⟨l₁, l₂, happended⟩ := afterBlockAppend_turns (tokenHooks_turns hafter)
    rw [happended.takes.sameLists.own, happended.inquiries.sameLists.own]
    exact happended.processed.own (of_decide_eq_true hcarries) hreentry
  skipped refused store block confirmed l l' _ hafter hcarries := by
    have hnone : content block = .none := not_not.mp (of_decide_eq_false hcarries)
    have hturns := tokenHooks_turns hafter
    rw [hnone] at hturns
    exact (afterBlockAppend_none hturns).own

end Token

-- Each block of a chain that carries an extension takes effect once: what the ledger holds of an
-- account is what these blocks make of nothing, one after the other. What was confirmed stays.
theorem app_effects_exact {env : Env} {blocks : Set Block} (happart : Apart env blocks) :
    (∀ history s, AppRun env (aliasApp env) .empty blocks history s →
      Exactly env (aliasApp env) .empty (aliasRecords env) blocks history s) ∧
    ∀ content history s, AppRun env (tokenApp env content) .empty blocks history s →
      Exactly env (tokenApp env content) .empty (tokenRecords env) blocks history s :=
  ⟨fun _ _ hrun => hrun.exactly (aliasApp_guarded env) happart,
    fun content _ _ hrun => hrun.exactly (tokenApp_guarded env content) happart⟩

-- Blocks of three accounts, with the names "Bob", "bo", "Bo" and "Bolt", and one without a name.
def namedBlock (credit : UInt16) (height : UInt64) (account : Account) (previous : BlockHash)
    (extensions : List UInt8) (hle : extensions.length ≤ MAX_EXTENSIONS_SIZE) : Block := .tx {
  opcode := .receive
  credit
  counter := 1
  timestamp := UInt64.ofNat TEST_EPOCH_TIMESTAMP
  height
  account
  previous
  representative := 1
  balance := BitVec.ofNat 128 RAI
  link := 0
  extensions
  signature := 0
  extensions_le := hle }

def nameExtension (name : Text) : List UInt8 := Extension.write ⟨Extension.ALIAS, 1 :: name⟩

def bobBlock : Block := namedBlock 1 0 1 0 (nameExtension [66, 111, 98]) (by decide)

def bobPlain : Block := namedBlock 1 1 1 (sampleEnv.hash bobBlock) [] (by decide)

def bobRename : Block :=
  namedBlock 1 1 1 (sampleEnv.hash bobBlock) (nameExtension [98, 111]) (by decide)

def boBlock : Block := namedBlock 2 0 2 0 (nameExtension [66, 111]) (by decide)

def boltBlock : Block := namedBlock 3 0 3 0 (nameExtension [66, 111, 108, 116]) (by decide)

def bobBlocks : List Block := [bobBlock, bobPlain, bobRename, boBlock, boltBlock]

-- The first block comes before it is confirmed, and twice afterwards. The next one is not
-- confirmed, and gives way to a rival with another name.
def bobActions : List (AppAction (AliasCall → Bool)) :=
  [.process StoreCall.never (fun _ => false) bobBlock false false,
    .process StoreCall.never (fun _ => false) bobBlock true false,
    .process StoreCall.never (fun _ => false) bobBlock true false,
    .process StoreCall.never (fun _ => false) bobPlain false false,
    .process StoreCall.never (fun _ => false) boBlock true false,
    .rollback StoreCall.never bobBlock,
    .rollback StoreCall.never bobPlain,
    .process StoreCall.never (fun _ => false) bobRename true false,
    .process StoreCall.never (fun _ => false) boltBlock true false]

def bobRun : History (App (AliasLedger × List HandlerCall)) (AppAction (AliasCall → Bool)) ×
    App (AliasLedger × List HandlerCall) :=
  (appMachine sampleEnv (aliasApp sampleEnv) .empty {b | b ∈ bobBlocks}).exec
    ⟨.empty, (.empty, [])⟩ bobActions

theorem bob_hashes : (bobBlocks.map sampleEnv.hash).Nodup ∧
    (0 : BlockHash) ∉ bobBlocks.map sampleEnv.hash ∧ ∀ b ∈ bobBlocks, b.height ≠ INVALID_HEIGHT := by
  decide +kernel

theorem bob_apart : Apart sampleEnv {b | b ∈ bobBlocks} where
  injective _ ha _ hb heq := List.inj_on_of_nodup_map bob_hashes.1 ha hb heq
  ne_zero b hb heq := bob_hashes.2.1 (List.mem_map.mpr ⟨b, hb, heq⟩)
  height_ne := bob_hashes.2.2

theorem bobRun_run :
    AppRun sampleEnv (aliasApp sampleEnv) .empty {b | b ∈ bobBlocks} bobRun.1 bobRun.2 := by
  refine Machine.exec_run rfl (fun action hmem _ => ?_) fun _ _ => trivial
  simp only [bobActions, List.mem_cons, List.not_mem_nil, or_false] at hmem
  rcases hmem with rfl | rfl | rfl | rfl | rfl | rfl | rfl | rfl | rfl
  all_goals
    change _ ∈ bobBlocks
    simp only [AppAction.block, bobBlocks, List.mem_cons, true_or, or_true]

-- Each name is taken once, and the plain block is gone.
theorem bob_named_once :
    bobRun.2.ledger.2 = [⟨boltBlock, true⟩, ⟨bobRename, true⟩, ⟨boBlock, true⟩, ⟨bobBlock, true⟩] ∧
    (bobRun.2.ledger.1.aliasInfoGet 1).map (·.name) = some [98, 111] ∧
    (bobRun.2.ledger.1.blocks.get (1, 1)).map (·.previous) = some 0 ∧
    Exactly sampleEnv (aliasApp sampleEnv) .empty (aliasRecords sampleEnv) {b | b ∈ bobBlocks}
      bobRun.1 bobRun.2 :=
  ⟨by decide +kernel, by decide +kernel, by decide +kernel,
    (app_effects_exact bob_apart).1 bobRun.1 bobRun.2 bobRun_run⟩

end Raicoin
