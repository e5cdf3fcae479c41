import Raicoin.Alias.Process
import Raicoin.Lib.Machine
import Raicoin.Node.BlockProcessor.Replay

-- The entries that aliases are found under follow the aliases, and a query meets its own.
namespace Raicoin

open Lib Scans

-- A call of `Process`: with a block and its extensions, whatever they say.
structure AliasAction where
  fails : AliasCall → Bool
  block : Block
  extensions : ExtensionList

@[reducible] def aliasMachine (env : Env) : Machine AliasLedger AliasAction where
  start l := l = .empty
  fits _ action := ∀ extension ∈ action.extensions, extension.Valid
  step l action := l.committed (l.process env action.fails action.block action.extensions)

abbrev AliasRun (env : Env) (history : History AliasLedger AliasAction) (l : AliasLedger) : Prop :=
  (aliasMachine env).Run (fun _ _ => True) history l

-- The first 64 bytes in lower case.
def searchKey (text : Text) : List UInt8 :=
  (text.take 64).map lowerByte ++ List.replicate (64 - text.length) 0

-- Each account with a text has one entry, and there are no others.
def Indexes (t : KeyTable AliasIndex) (text : Account → Text) : Prop :=
  ∀ bytes, bytes ∈ t.keys ↔
    ∃ account, text account ≠ [] ∧ bytes = searchKey (text account) ++ streamWrite account

-- The scan of a query visits the keys that begin with it.
def Finds (t : KeyTable AliasIndex) : Prop :=
  ∀ query : Text, query ≠ [] → query.length ≤ 64 →
    t.Exact (fun index => index.key.bytes.take query.length = query.map lowerByte)
      (visited (t.aliasLowerBound (.ofString query))
        (t.aliasUpperBound (.ofString query) query.length))

namespace AliasLedger

variable (l : AliasLedger)

def infoOf (account : Account) : AliasInfo := (l.aliasInfoGet account).getD .new

def nameOf (account : Account) : Text := (l.infoOf account).name

def dnsOf (account : Account) : Text := (l.infoOf account).dns

end AliasLedger

section Keys

theorem lowerByte_zero : lowerByte 0 = 0 := rfl

theorem toLower_ofBytes (bytes : List UInt8) :
    (Prefix.ofBytes bytes).toLower.bytes = searchKey bytes := by
  change (bytes.take 64 ++ List.replicate (64 - bytes.length) 0).map lowerByte = _
  rw [List.map_append, List.map_replicate, lowerByte_zero]
  rfl

theorem toLower_ofString (query : Text) :
    (Prefix.ofString query).toLower.bytes = searchKey query := by
  rw [← toLower_ofBytes]
  change ((Prefix.ofBytes query).bytes.map lowerByte).map lowerByte = _
  rw [List.map_map]
  exact List.map_congr_left fun byte _ => lowerByte_lowerByte byte

theorem searchKey_of_le {query : Text} (h : query.length ≤ 64) :
    searchKey query = query.map lowerByte ++ List.replicate (64 - (query.map lowerByte).length) 0 := by
  rw [searchKey, List.take_of_length_le h, List.length_map]

theorem finds (t : KeyTable AliasIndex) : Finds t := by
  intro query hquery hlength
  have hpos : 0 < query.length := List.length_pos_iff.mpr hquery
  have hkey := (toLower_ofString query).trans (searchKey_of_le hlength)
  have hexact := t.alias_exact (by rwa [List.length_map]) (by rwa [List.length_map]) hkey
  rwa [List.length_map] at hexact

theorem serialize_make (text : Text) (account : Account) :
    StoreKey.serialize (AliasIndex.make (.ofBytes text) account) =
      searchKey text ++ streamWrite account := by
  rw [← toLower_ofBytes]
  rfl

theorem entry_inj {text text' : Text} {account account' : Account}
    (h : searchKey text ++ streamWrite account = searchKey text' ++ streamWrite account') :
    account = account' := by
  have hlength : (searchKey text).length = (searchKey text').length := by
    rw [← toLower_ofBytes, ← toLower_ofBytes, Prefix.length_eq, Prefix.length_eq]
  exact ByteTables.streamWrite_inj.mp (List.append_inj h hlength).2

end Keys

section Reindex

variable {fails : AliasCall → Bool} {t t' : KeyTable AliasIndex} {call del put : AliasCall}
  {account : Account} {old new : Text} {text : Account → Text}

-- The entry of an account goes.
theorem Indexes.dropEntry (h : Indexes t text) (hold : text account = old)
    (hdrop : t.dropEntry fails call account old = .ok t') :
    Indexes t' (Function.update text account []) := by
  intro bytes
  have hleft : (∃ other, other ≠ account ∧ text other ≠ [] ∧
      bytes = searchKey (text other) ++ streamWrite other) ↔
      ∃ other, Function.update text account [] other ≠ [] ∧
        bytes = searchKey (Function.update text account [] other) ++ streamWrite other := by
    refine exists_congr fun other => ?_
    by_cases hother : other = account
    · simp [hother]
    · simp [hother]
  rw [← hleft]
  unfold KeyTable.dropEntry at hdrop
  split at hdrop
  · next hempty =>
      obtain rfl := Except.ok.inj hdrop
      have hnone : text account = [] := by rw [hold, List.isEmpty_iff.mp hempty]
      rw [h bytes]
      refine exists_congr fun other => ⟨fun hother => ⟨?_, hother⟩, fun hother => hother.2⟩
      exact fun heq => hother.1 (heq ▸ hnone)
  · rw [orReturn_eq_ok, KeyTable.aliasDel] at hdrop
    split at hdrop
    · cases hdrop
    · obtain rfl := Option.some.inj hdrop
      change bytes ∈ t.keys.erase _ ↔ _
      rw [Finset.mem_erase, serialize_make, h bytes]
      constructor
      · rintro ⟨hne, other, htext, rfl⟩
        refine ⟨other, ?_, htext, rfl⟩
        rintro rfl
        exact hne (by rw [hold])
      · rintro ⟨other, hother, htext, rfl⟩
        exact ⟨fun heq => hother (entry_inj heq), other, htext, rfl⟩

-- An account without an entry gets one.
theorem Indexes.addEntry (h : Indexes t text) (hold : text account = [])
    (hadd : t.addEntry fails call account new = .ok t') :
    Indexes t' (Function.update text account new) := by
  intro bytes
  have hothers (other : Account) (hother : other ≠ account) :
      Function.update text account new other = text other := Function.update_of_ne hother _ _
  unfold KeyTable.addEntry at hadd
  split at hadd
  · next hempty =>
      obtain rfl := Except.ok.inj hadd
      have hsame : Function.update text account new = text := by
        rw [List.isEmpty_iff.mp hempty, ← hold, Function.update_eq_self]
      rw [hsame, h bytes]
  · next hsome =>
      rw [orReturn_eq_ok, KeyTable.aliasPut] at hadd
      split at hadd
      · cases hadd
      · obtain rfl := Option.some.inj hadd
        change bytes ∈ insert _ t.keys ↔ _
        rw [Finset.mem_insert, serialize_make, h bytes]
        constructor
        · rintro (rfl | ⟨other, htext, rfl⟩)
          · refine ⟨account, ?_, by rw [Function.update_self]⟩
            rw [Function.update_self]
            exact fun heq => hsome (by rw [heq]; rfl)
          · have hother : other ≠ account := fun heq => htext (heq ▸ hold)
            exact ⟨other, by rwa [hothers other hother], by rw [hothers other hother]⟩
        · rintro ⟨other, htext, rfl⟩
          by_cases hother : other = account
          · subst hother
            exact .inl (by rw [Function.update_self])
          · rw [hothers other hother] at htext ⊢
            exact .inr ⟨other, htext, rfl⟩

theorem Indexes.reindex (h : Indexes t text) (hold : text account = old)
    (hreindex : t.reindex fails del put account old new = .ok t') :
    Indexes t' (Function.update text account new) := by
  rw [KeyTable.reindex, Except.bind_eq_ok] at hreindex
  obtain ⟨mid, hdrop, hadd⟩ := hreindex
  have hmid := (h.dropEntry hold hdrop).addEntry (Function.update_self _ _ _) hadd
  rwa [Function.update_idem] at hmid

end Reindex

namespace AliasInfo

-- The texts whose sizes can be written.
def Short (info : AliasInfo) : Prop := info.name.length < 2 ^ 16 ∧ info.dns.length < 2 ^ 16

theorem writeText_eq {text : Text} (h : text.length < 2 ^ 16) :
    writeText text = streamWrite (UInt16.ofNat text.length) ++ text := by
  have hsize : (UInt16.ofNat text.length).toNat = text.length := UInt16.toNat_ofNat_of_lt' h
  rw [writeText, hsize, List.take_length]

theorem deserialize_inverts : Inverts deserialize serialize Short := by
  refine .congr (?_ : Inverts _ (fun info : AliasInfo =>
    streamWrite info.head ++ (streamWrite info.nameValid ++ (streamWrite info.dnsValid ++
      ((streamWrite (UInt16.ofNat info.name.length) ++ info.name) ++
        ((streamWrite (UInt16.ofNat info.dns.length) ++ info.dns) ++ []))))) _)
    (fun info hshort => ?_) fun info => Iff.rfl
  · refine .bind AliasInfo.head streamRead_inverts (fun _ _ => trivial) fun head _ => ?_
    refine .bind nameValid streamRead_inverts (fun _ _ => trivial) fun nameValid _ => ?_
    refine .bind dnsValid streamRead_inverts (fun _ _ => trivial) fun dnsValid _ => ?_
    refine .bind name Extension.readValue_inverts (fun _ h => h.1.1.1.1) fun name hname => ?_
    refine .bind dns Extension.readValue_inverts (fun _ h => h.1.1.1.1.2) fun dns hdns => ?_
    refine .done ⟨⟨⟨⟨⟨⟨hname, hdns⟩, rfl⟩, rfl⟩, rfl⟩, rfl⟩, rfl⟩ ?_
    rintro info ⟨⟨⟨⟨⟨-, rfl⟩, rfl⟩, rfl⟩, rfl⟩, rfl⟩
    rfl
  · rw [serialize, writeText_eq hshort.1, writeText_eq hshort.2, List.append_nil]

end AliasInfo

theorem ExtensionList.get_value_lt (type : UInt16) {extensions : ExtensionList}
    (h : ∀ extension ∈ extensions, extension.Valid) :
    (extensions.get type).value.length < 2 ^ 16 := by
  unfold ExtensionList.get
  cases hfind : extensions.find? fun extension => extension.type = type with
  | none => exact Nat.pow_pos (by decide)
  | some extension => exact (h extension (List.mem_of_find?_eq_some hfind)).2

theorem ExtensionAlias.opValue_lt {extensions : ExtensionList} {alias_ : ExtensionAlias}
    (h : ∀ extension ∈ extensions, extension.Valid)
    (hoperation : ofExtensions extensions = .ok alias_) : alias_.opValue.length < 2 ^ 16 := by
  have hlt := ExtensionList.get_value_lt Extension.ALIAS h
  unfold ofExtensions at hoperation
  simp only [Except.bind_eq_ok, Except.pure_eq_ok] at hoperation
  obtain ⟨_, -, parsed, hparsed, _, -, rfl⟩ := hoperation
  unfold fromExtension at hparsed
  split at hparsed
  · cases hparsed
  · split at hparsed
    · obtain rfl := Except.ok.inj hparsed
      exact Nat.pow_pos (by decide)
    · next value op opValue hvalue =>
        obtain rfl := Except.ok.inj hparsed
        rw [hvalue, List.length_cons] at hlt
        exact Nat.lt_of_succ_lt hlt

namespace AliasLedger

variable {env : Env} {fails : AliasCall → Bool} {l l' : AliasLedger} {block : Block}
  {extensions : ExtensionList}

-- What a run keeps: infos that can be read, and the entries of their texts.
structure Sound (l : AliasLedger) : Prop where
  short : ∀ account, (l.infoOf account).Short
  index : Indexes l.index l.nameOf
  dnsIndex : Indexes l.dnsIndex l.dnsOf

theorem empty_sound : Sound .empty where
  short account := by
    rw [AliasInfo.Short]
    exact ⟨Nat.pow_pos (by decide), Nat.pow_pos (by decide)⟩
  index bytes := by
    constructor
    · exact fun h => absurd h (Finset.notMem_empty _)
    · rintro ⟨account, hname, -⟩
      exact absurd rfl hname
  dnsIndex bytes := by
    constructor
    · exact fun h => absurd h (Finset.notMem_empty _)
    · rintro ⟨account, hdns, -⟩
      exact absurd rfl hdns

-- What is put is what is read.
theorem infoOf_put {account : Account} {info : AliasInfo} (hshort : info.Short)
    (hput : l.aliasInfoPut fails account info = some l') :
    l'.infoOf = Function.update l.infoOf account info ∧ l'.index = l.index ∧
      l'.dnsIndex = l.dnsIndex := by
  unfold aliasInfoPut at hput
  split at hput
  · cases hput
  · obtain rfl := Option.some.inj hput
    refine ⟨?_, rfl, rfl⟩
    funext other
    unfold infoOf aliasInfoGet
    rw [Table.get_put]
    by_cases hother : other = account
    · rw [if_pos hother, hother, Function.update_self, Option.bind_eq_bind, Option.bind_some,
        ByteTables.parse_write AliasInfo.deserialize_inverts hshort, Option.getD_some]
    · rw [if_neg hother, Function.update_of_ne hother]

theorem field_update {β : Type} {infos infos' : Account → AliasInfo} {account : Account}
    {info : AliasInfo} (h : infos' = Function.update infos account info) (field : AliasInfo → β) :
    (fun other => field (infos' other)) =
      Function.update (fun other => field (infos other)) account (field info) := by
  funext other
  rw [h]
  by_cases hother : other = account
  · rw [hother, Function.update_self, Function.update_self]
  · rw [Function.update_of_ne hother, Function.update_of_ne hother]

-- The two tables after an operation are those of the texts that it leaves behind.
theorem Sound.applyIndex (h : l.Sound) {account : Account} {info : AliasInfo}
    (height : UInt64) (hinfo : l.infoOf account = info)
    {operation : Except ErrorCode ExtensionAlias}
    (happly : l.applyIndex fails account info operation = .ok l') :
    l'.infoOf = l.infoOf ∧
      Indexes l'.index (Function.update l.nameOf account (infoAfter height info operation).name) ∧
      Indexes l'.dnsIndex (Function.update l.dnsOf account (infoAfter height info operation).dns) := by
  have hname : l.nameOf account = info.name := congrArg AliasInfo.name hinfo
  have hdns : l.dnsOf account = info.dns := congrArg AliasInfo.dns hinfo
  have hnameKept : Function.update l.nameOf account info.name = l.nameOf := by
    rw [← hname, Function.update_eq_self]
  have hdnsKept : Function.update l.dnsOf account info.dns = l.dnsOf := by
    rw [← hdns, Function.update_eq_self]
  cases operation with
  | error code =>
      obtain rfl := Except.ok.inj happly
      refine ⟨rfl, ?_, ?_⟩
      · exact hnameKept.symm ▸ h.index
      · exact hdnsKept.symm ▸ h.dnsIndex
  | ok alias_ =>
      obtain ⟨op, value⟩ := alias_
      cases op with
      | name =>
          simp only [AliasLedger.applyIndex, Except.bind_eq_ok, Except.pure_eq_ok] at happly
          obtain ⟨index, hreindex, rfl⟩ := happly
          refine ⟨rfl, h.index.reindex hname hreindex, ?_⟩
          exact hdnsKept.symm ▸ h.dnsIndex
      | dns =>
          simp only [AliasLedger.applyIndex, Except.bind_eq_ok, Except.pure_eq_ok] at happly
          obtain ⟨dnsIndex, hreindex, rfl⟩ := happly
          refine ⟨rfl, ?_, h.dnsIndex.reindex hdns hreindex⟩
          exact hnameKept.symm ▸ h.index
      | invalid =>
          obtain rfl := Except.ok.inj happly
          refine ⟨rfl, ?_, ?_⟩
          · exact hnameKept.symm ▸ h.index
          · exact hdnsKept.symm ▸ h.dnsIndex
      | other byte =>
          obtain rfl := Except.ok.inj happly
          refine ⟨rfl, ?_, ?_⟩
          · exact hnameKept.symm ▸ h.index
          · exact hdnsKept.symm ▸ h.dnsIndex

theorem infoAfter_short {info : AliasInfo} (height : UInt64) (h : info.Short)
    (hvalid : ∀ extension ∈ extensions, extension.Valid) :
    (infoAfter height info (ExtensionAlias.ofExtensions extensions)).Short := by
  cases hoperation : ExtensionAlias.ofExtensions extensions with
  | error code => exact h
  | ok alias_ =>
      have hlt := ExtensionAlias.opValue_lt hvalid hoperation
      obtain ⟨op, value⟩ := alias_
      cases op with
      | name => exact ⟨hlt, h.2⟩
      | dns => exact ⟨h.1, hlt⟩
      | invalid => exact h
      | other byte => exact h

theorem Sound.process (h : l.Sound) (hvalid : ∀ extension ∈ extensions, extension.Valid)
    (hprocess : l.process env fails block extensions = .ok l') : l'.Sound := by
  unfold AliasLedger.process at hprocess
  dsimp only at hprocess
  split at hprocess
  · obtain rfl := Except.ok.inj hprocess
    exact h
  · simp only [Except.bind_eq_ok, orReturn_eq_ok] at hprocess
    obtain ⟨applied, happly, recorded, hrecord, hput⟩ := hprocess
    have hshort := infoAfter_short (.ofNat block.height) (h.short block.account) hvalid
    obtain ⟨hinfos, hindex, hdnsIndex⟩ := h.applyIndex (.ofNat block.height) rfl happly
    have hrecorded : recorded.infoOf = l.infoOf ∧ recorded.index = applied.index ∧
        recorded.dnsIndex = applied.dnsIndex := by
      unfold aliasBlockPut at hrecord
      split at hrecord
      · cases hrecord
      · obtain rfl := Option.some.inj hrecord
        exact ⟨hinfos, rfl, rfl⟩
    obtain ⟨hkept, hkeptIndex, hkeptDns⟩ := hrecorded
    obtain ⟨hinfo, hlastIndex, hlastDns⟩ := infoOf_put hshort hput
    rw [hkept] at hinfo
    refine ⟨fun account => ?_, ?_, ?_⟩
    · rw [hinfo]
      by_cases haccount : account = block.account
      · rw [haccount, Function.update_self]
        exact hshort
      · rw [Function.update_of_ne haccount]
        exact h.short account
    · have hnames : l'.nameOf = Function.update l.nameOf block.account _ :=
        field_update hinfo AliasInfo.name
      rw [hlastIndex, hkeptIndex, hnames]
      exact hindex
    · have hdnses : l'.dnsOf = Function.update l.dnsOf block.account _ :=
        field_update hinfo AliasInfo.dns
      rw [hlastDns, hkeptDns, hdnses]
      exact hdnsIndex

theorem run_sound {history : History AliasLedger AliasAction} (h : AliasRun env history l) :
    l.Sound := by
  refine h.invariant (P := fun _ l => l.Sound) ?_ ?_
  · rintro l rfl
    exact empty_sound
  · intro history l action _ hfits _ hl
    unfold Machine.step aliasMachine
    dsimp only
    unfold committed
    split
    · next hprocess => exact hl.process hfits hprocess
    · exact hl

end AliasLedger

-- The entries are those of the current texts, and a query finds those that begin with it.
theorem alias_search_exact {env : Env} {history : History AliasLedger AliasAction} {l : AliasLedger}
    (h : AliasRun env history l) :
    Indexes l.index l.nameOf ∧ Indexes l.dnsIndex l.dnsOf ∧ Finds l.index ∧ Finds l.dnsIndex :=
  have hsound := AliasLedger.run_sound h
  ⟨hsound.index, hsound.dnsIndex, finds _, finds _⟩

def sampleNaming (refuses : Bool) (account : Account) (height : UInt64) (op : UInt8) (value : Text) :
    AliasAction where
  fails call := refuses && decide (call = .infoPut)
  block := sampleTx .change 1 1 TEST_EPOCH_TIMESTAMP height account 0 (genesisRepresentative .test)
    RAI 0
  extensions := [⟨Extension.ALIAS, op :: value⟩]

-- "Bob" and "bo"; the first is called "Bolt" then, and its old block comes again; the other one
-- gets the dns "bo.io". Last, a write is refused to the first.
def sampleNamings : List AliasAction :=
  [sampleNaming false 1 1 1 [66, 111, 98], sampleNaming false 2 1 1 [98, 111],
    sampleNaming false 1 2 1 [66, 111, 108, 116], sampleNaming false 1 1 1 [66, 111, 98],
    sampleNaming false 2 2 2 [98, 111, 46, 105, 111], sampleNaming true 1 3 1 [98]]

def sampleAliases : AliasLedger := ((aliasMachine sampleEnv).exec .empty sampleNamings).2

theorem bob_found :
    sampleAliases.nameOf 1 = [66, 111, 108, 116] ∧ sampleAliases.nameOf 2 = [98, 111] ∧
      sampleAliases.dnsOf 2 = [98, 111, 46, 105, 111] ∧
      Indexes sampleAliases.index sampleAliases.nameOf ∧
      Indexes sampleAliases.dnsIndex sampleAliases.dnsOf ∧
      Finds sampleAliases.index ∧ Finds sampleAliases.dnsIndex := by
  have hvalid : ∀ action ∈ sampleNamings, ∀ extension ∈ action.extensions, extension.Valid := by
    intro action haction extension hextension
    simp only [sampleNamings, List.mem_cons, List.not_mem_nil, or_false] at haction
    rcases haction with rfl | rfl | rfl | rfl | rfl | rfl
    all_goals
      rw [List.mem_singleton.mp hextension]
      exact ⟨by decide, by decide⟩
  have hrun : AliasRun sampleEnv ((aliasMachine sampleEnv).exec .empty sampleNamings).1
      sampleAliases :=
    Machine.exec_run rfl (fun action haction _ => hvalid action haction) fun _ _ => trivial
  exact ⟨by decide +kernel, by decide +kernel, by decide +kernel, alias_search_exact hrun⟩

end Raicoin
