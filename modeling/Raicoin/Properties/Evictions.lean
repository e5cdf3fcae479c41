import Raicoin.Lib.Lowest
import Raicoin.Properties.ForkCounts

-- Which forks of an account are stored does not depend on the order in which they come.
namespace Raicoin

open Lib

namespace ForkTable

variable {forks : ForkTable} {account : Account} {height : Nat} {entry : Block × Block}

-- The heights at which the account has a fork.
def stored (forks : ForkTable) (account : Account) : Finset Nat :=
  (forks.places account).image Prod.snd

@[simp] theorem mem_stored :
    height ∈ forks.stored account ↔ ∃ entry, forks.get (account, height) = some entry := by
  simp only [stored, Finset.mem_image, mem_places]
  constructor
  · rintro ⟨⟨account', height'⟩, ⟨hget, rfl⟩, rfl⟩
    exact hget
  · intro hget
    exact ⟨(account, height), ⟨hget, rfl⟩, rfl⟩

theorem stored_put : stored (forks.put (account, height) entry) account =
    insert height (forks.stored account) := by
  ext height'
  by_cases heq : height' = height
  · simp [heq]
  · simp [heq]

theorem stored_del : stored (forks.del (account, height)) account =
    (forks.stored account).erase height := by
  ext height'
  by_cases heq : height' = height
  · simp [heq]
  · simp [heq]

theorem height_mem_stored (h : Keyed forks) (hmem : entry ∈ forks.entries account) :
    entry.1.height ∈ forks.stored account :=
  mem_stored.mpr ⟨entry, (mem_entries h).mp hmem⟩

theorem stored_entry (h : Keyed forks) (hmem : height ∈ forks.stored account) :
    ∃ entry ∈ forks.entries account, entry.1.height = height := by
  obtain ⟨entry, hget⟩ := mem_stored.mp hmem
  have hheight := (h _ _ hget).2.1
  exact ⟨entry, (mem_entries h).mpr (hheight ▸ hget), hheight⟩

end ForkTable

section Furthest

-- What the loop that looks for the highest fork has reached.
private def reached (height : Nat) : Option (Block × Block) → Nat
  | none => height
  | some fork => fork.1.height

private theorem reached_le {height : Nat} (entries : List (Block × Block))
    (found : Option (Block × Block)) :
    let result := entries.foldl (fun found entry =>
      let maxHeight := match found with
        | none => height
        | some fork => fork.1.height
      if entry.1.height > maxHeight then some entry else found) found
    reached height found ≤ reached height result ∧
      ∀ entry ∈ entries, entry.1.height ≤ reached height result := by
  induction entries generalizing found with
  | nil => exact ⟨Nat.le_refl _, fun entry hmem => absurd hmem List.not_mem_nil⟩
  | cons entry rest ih =>
      dsimp only
      rw [List.foldl_cons]
      obtain ⟨hfound, hrest⟩ := ih (if entry.1.height > reached height found then some entry else found)
      have hstep : reached height found ≤ reached height
          (if entry.1.height > reached height found then some entry else found) ∧
          entry.1.height ≤ reached height
            (if entry.1.height > reached height found then some entry else found) := by
        split
        · rename_i hgt
          exact ⟨Nat.le_of_lt hgt, Nat.le_refl _⟩
        · rename_i hle
          exact ⟨Nat.le_refl _, Nat.not_lt.mp hle⟩
      refine ⟨hstep.1.trans hfound, fun other hmem => ?_⟩
      rcases List.mem_cons.mp hmem with rfl | hmem
      · exact hstep.2.trans hfound
      · exact hrest other hmem

theorem furthestFork_none {height : Nat} {entries : List (Block × Block)}
    (h : furthestFork height entries = none) : ∀ entry ∈ entries, entry.1.height ≤ height := by
  intro entry hmem
  have hle := (@reached_le height entries none).2 entry hmem
  change entry.1.height ≤ reached height (furthestFork height entries) at hle
  rwa [h] at hle

theorem furthestFork_max {height : Nat} {entries : List (Block × Block)} {fork : Block × Block}
    (h : furthestFork height entries = some fork) :
    ∀ entry ∈ entries, entry.1.height ≤ fork.1.height := by
  intro entry hmem
  have hle := (@reached_le height entries none).2 entry hmem
  change entry.1.height ≤ reached height (furthestFork height entries) at hle
  rwa [h] at hle

end Furthest

-- The ledger has an account whose last block is `head`, and forks of it are counted so far.
structure Heads (l : Ledger) (forks : ForkTable) (head : Block) (counter : Nat) : Prop where
  keyed : forks.Keyed
  info : ∃ info, l.store.accountInfoGet head.account = some info ∧ info.valid = true ∧
    info.headHeight = head.height ∧ l.store.blockGet info.head = some head ∧ info.forks = counter

-- Two different blocks for a height of the account that is not above its head.
structure ValidFork (head : Block) (fork : Block × Block) : Prop where
  forkWith : fork.1.forkWith fork.2 = true
  account : fork.1.account = head.account
  height : fork.1.height ≤ head.height

def processForks (env : Env) (now : Nat) (reports : List (Block × Block)) (l : Ledger)
    (forks : ForkTable) : Ledger × ForkTable :=
  reports.foldl (fun state fork =>
    let result := processBlockFork_ env now ForkCall.never state.1 state.2 fork.1 fork.2
    (result.ledger, result.forks)) (l, forks)

section Step

variable {env : Env} {now counter : Nat} {l : Ledger} {forks : ForkTable} {head : Block}
  {fork : Block × Block}

-- What one report does, by the number of forks that are counted.
structure Reported (env : Env) (now counter : Nat) (forks : ForkTable) (head : Block)
    (height : Nat) (result : ForkResult) : Prop where
  old : height ∈ forks.stored head.account →
    Heads result.ledger result.forks head counter ∧
      result.forks.stored head.account = forks.stored head.account
  room : height ∉ forks.stored head.account →
    counter < maxAllowedForks env.network now head.credit + 2 →
    Heads result.ledger result.forks head ((counter + 1) % 2 ^ 16) ∧
      result.forks.stored head.account = insert height (forks.stored head.account)
  full : height ∉ forks.stored head.account →
    maxAllowedForks env.network now head.credit + 2 ≤ counter →
    Heads result.ledger result.forks head counter ∧
      ((∀ other ∈ forks.stored head.account, other ≤ height) ∧
        result.forks.stored head.account = forks.stored head.account ∨
      ∃ top ∈ forks.stored head.account, (∀ other ∈ forks.stored head.account, other ≤ top) ∧
        height < top ∧
        result.forks.stored head.account = insert height ((forks.stored head.account).erase top))

theorem Heads.report (h : Heads l forks head counter) (hfork : ValidFork head fork) :
    Reported env now counter forks head fork.1.height
      (processBlockFork_ env now ForkCall.never l forks fork.1 fork.2) := by
  obtain ⟨hkeyed, info, hinfo, hvalid, hheight, hhead, rfl⟩ := h
  have haccount := hfork.account
  have hle := hfork.height
  have hlt := head.height_lt
  have hinvalid : info.headHeight ≠ INVALID_HEIGHT := by
    intro heq
    simp [AccountInfo.valid, heq] at hvalid
  have hplace : fork.1.height < 2 ^ 64 - 1 := by
    unfold INVALID_HEIGHT at hinvalid
    omega
  have hfilter : (l.store.accountInfoGet fork.1.account).filter AccountInfo.valid = some info := by
    rw [haccount, hinfo, Option.filter, if_pos hvalid]
  have hsame : Heads l forks head info.forks :=
    ⟨hkeyed, info, hinfo, hvalid, hheight, hhead, rfl⟩
  have hheight' : ¬fork.1.height > info.headHeight := by omega
  constructor
  · intro hold
    obtain ⟨entry, hget⟩ := ForkTable.mem_stored.mp hold
    have hcontains : forks.contains (fork.1.account, fork.1.height) = true := by
      rw [Table.contains, haccount, hget]
      rfl
    have hresult : ∃ election, processBlockFork_ env now ForkCall.never l forks fork.1 fork.2 =
        ⟨l, forks, false, election, none⟩ := by
      unfold processBlockFork_
      simp only [hfork.forkWith, hfilter, if_neg hheight', ForkCall.never, hcontains, if_true,
        if_false, Bool.true_eq_false, Bool.false_eq_true]
      exact ⟨_, rfl⟩
    obtain ⟨election, hresult⟩ := hresult
    rw [hresult]
    exact ⟨hsame, rfl⟩
  · intro hnew hroom
    have hnone : forks.get (fork.1.account, fork.1.height) = none := by
      rw [haccount]
      by_contra hsome
      exact hnew (ForkTable.mem_stored.mpr (Option.ne_none_iff_exists'.mp hsome))
    obtain ⟨election, hresult⟩ := processBlockFork_new hfork.forkWith (haccount ▸ hinfo) hvalid
      (Nat.not_lt.mp hheight') hnone hhead hroom
    rw [hresult]
    refine ⟨⟨hkeyed.put rfl rfl hplace, { info with forks := (info.forks + 1) % 2 ^ 16 }, ?_,
      hvalid, hheight, hhead, rfl⟩, ?_⟩
    · rw [putInfo_accountInfoGet, if_pos haccount.symm]
    · dsimp only
      rw [haccount, ForkTable.stored_put]
  · intro hnew hfull
    have hcontains : forks.contains (fork.1.account, fork.1.height) = false := by
      rw [Table.contains, haccount, Option.isSome_eq_false_iff, Option.isNone_iff_eq_none]
      by_contra hsome
      exact hnew (ForkTable.mem_stored.mpr (Option.ne_none_iff_exists'.mp hsome))
    have hown : ¬∃ entry ∈ forks.entries fork.1.account, entry.1.account ≠ fork.1.account := by
      rintro ⟨entry, hmem, hne⟩
      exact hne (hkeyed _ _ ((ForkTable.mem_entries hkeyed).mp hmem)).1
    cases hfurthest : furthestFork fork.1.height (forks.entries fork.1.account) with
    | none =>
        have hresult : processBlockFork_ env now ForkCall.never l forks fork.1 fork.2 =
            ⟨l, forks, false, false, none⟩ := by
          unfold processBlockFork_
          simp only [hfork.forkWith, hfilter, if_neg hheight', ForkCall.never, hcontains, hhead,
            if_neg (Nat.not_lt.mpr hfull), if_neg hown, hfurthest, if_false, Bool.true_eq_false,
            Bool.false_eq_true]
        rw [hresult]
        refine ⟨hsame, .inl ⟨fun other hmem => ?_, rfl⟩⟩
        obtain ⟨entry, hentry, rfl⟩ := ForkTable.stored_entry hkeyed hmem
        exact furthestFork_none hfurthest entry (haccount ▸ hentry)
    | some top =>
        obtain ⟨htop, hlt'⟩ := furthestFork_mem hfurthest
        rw [haccount] at htop
        have hget := (ForkTable.mem_entries hkeyed).mp htop
        have hdel : forks.forkDel ForkCall.never fork.1.account top.1.height =
            some (forks.del (fork.1.account, top.1.height)) := by
          rw [ForkTable.forkDel, haccount, hget]
          simp [ForkCall.never]
        have hresult : ∃ election, processBlockFork_ env now ForkCall.never l forks fork.1 fork.2 =
            ⟨l, (forks.del (fork.1.account, top.1.height)).put (fork.1.account, fork.1.height)
              (fork.1, fork.2), true, election, some top⟩ := by
          have hnever (call : ForkCall) : ForkCall.never call = false := rfl
          unfold processBlockFork_
          simp only [hfork.forkWith, hfilter, if_neg hheight', hnever, hcontains, hhead,
            if_neg (Nat.not_lt.mpr hfull), if_neg hown, hfurthest, if_false, Bool.true_eq_false,
            Bool.false_eq_true, hdel]
          exact ⟨_, rfl⟩
        obtain ⟨election, hresult⟩ := hresult
        rw [hresult]
        refine ⟨⟨(hkeyed.del _).put rfl rfl hplace, info, hinfo, hvalid, hheight, hhead, rfl⟩,
          .inr ⟨top.1.height, ForkTable.height_mem_stored hkeyed htop, fun other hmem => ?_, hlt',
            ?_⟩⟩
        · obtain ⟨entry, hentry, rfl⟩ := ForkTable.stored_entry hkeyed hmem
          exact furthestFork_max hfurthest entry (haccount ▸ hentry)
        · dsimp only
          rw [haccount, ForkTable.stored_put, ForkTable.stored_del]

end Step

section Run

variable {env : Env} {now : Nat} {head : Block}

def reportedHeights (reports : List (Block × Block)) : Finset Nat :=
  (reports.map fun fork => fork.1.height).toFinset

private theorem reportedHeights_cons (fork : Block × Block) (rest : List (Block × Block))
    (seen : Finset Nat) : seen ∪ reportedHeights (fork :: rest) =
      insert fork.1.height seen ∪ reportedHeights rest := by
  ext height
  simp only [reportedHeights, List.map_cons, List.toFinset_cons, Finset.mem_union,
    Finset.mem_insert]
  tauto

-- As long as the counter can hold what is allowed, the lowest heights are kept.
theorem processForks_lowest (hfits : maxAllowedForks env.network now head.credit + 2 < 2 ^ 16)
    (reports : List (Block × Block)) {l : Ledger} {forks : ForkTable} {seen : Finset Nat}
    (h : Heads l forks head (forks.stored head.account).card)
    (hvalid : ∀ fork ∈ reports, ValidFork head fork)
    (hstored : forks.stored head.account =
      lowest (maxAllowedForks env.network now head.credit + 2) seen) :
    (processForks env now reports l forks).2.stored head.account =
      lowest (maxAllowedForks env.network now head.credit + 2) (seen ∪ reportedHeights reports) := by
  induction reports generalizing l forks seen with
  | nil => simpa [processForks, reportedHeights] using hstored
  | cons fork rest ih =>
      have hrest : ∀ other ∈ rest, ValidFork head other := fun other hmem =>
        hvalid other (List.mem_cons_of_mem _ hmem)
      have hstep : Reported env now _ forks head _ _ := h.report (hvalid fork List.mem_cons_self)
      have hcard := card_lowest (maxAllowedForks env.network now head.credit + 2) seen
      rw [← hstored] at hcard
      rw [reportedHeights_cons]
      change (processForks env now rest _ _).2.stored head.account = _
      generalize processBlockFork_ env now ForkCall.never l forks fork.1 fork.2 = result at hstep ⊢
      by_cases hold : fork.1.height ∈ forks.stored head.account
      · obtain ⟨hheads, hsame⟩ := hstep.old hold
        rw [hstored] at hold
        refine ih (hsame ▸ hheads) hrest ?_
        rw [hsame, Finset.insert_eq_of_mem (lowest_subset _ _ hold), hstored]
      · by_cases hroom : (forks.stored head.account).card <
            maxAllowedForks env.network now head.credit + 2
        · obtain ⟨hheads, hinsert⟩ := hstep.room hold hroom
          have hcounter : ((forks.stored head.account).card + 1) % 2 ^ 16 =
              (result.forks.stored head.account).card := by
            rw [hinsert, Finset.card_insert_of_notMem hold]
            omega
          refine ih (hcounter ▸ hheads) hrest ?_
          rw [hstored] at hroom
          rw [hinsert, hstored, insert_lowest hroom]
        · obtain ⟨hheads, hfull⟩ := hstep.full hold (Nat.not_lt.mp hroom)
          rcases hfull with ⟨hhigh, hsame⟩ | ⟨top, htop, hmax, hlt, hevict⟩
          · refine ih (hsame ▸ hheads) hrest ?_
            rw [hsame, hstored]
            rw [hstored] at hold hhigh hroom
            refine (lowest_insert_high (Nat.not_lt.mp hroom) fun other hmem => ?_).symm
            exact lt_of_le_of_ne (hhigh other hmem) fun heq => hold (heq ▸ hmem)
          · have hcounter : (forks.stored head.account).card =
                (result.forks.stored head.account).card := by
              have hout : fork.1.height ∉ (forks.stored head.account).erase top := fun hmem =>
                hold (Finset.mem_of_mem_erase hmem)
              have hpos := Finset.card_pos.mpr ⟨top, htop⟩
              rw [hevict, Finset.card_insert_of_notMem hout, Finset.card_erase_of_mem htop]
              omega
            refine ih (hcounter ▸ hheads) hrest ?_
            rw [hstored] at hold htop hmax hroom
            -- a height that was seen and is not kept is above all that are kept
            have hnew : fork.1.height ∉ seen := fun hmem =>
              lt_asymm hlt (lowest_lt htop hmem hold)
            rw [hevict, hstored, lowest_insert_evict (Nat.not_lt.mp hroom) hnew htop hmax hlt]

-- What the counter cannot hold is never refused.
theorem processForks_all (hwide : 2 ^ 16 ≤ maxAllowedForks env.network now head.credit + 2)
    (reports : List (Block × Block)) {l : Ledger} {forks : ForkTable} {counter : Nat}
    (h : Heads l forks head counter) (hcounter : counter < 2 ^ 16)
    (hvalid : ∀ fork ∈ reports, ValidFork head fork) :
    (processForks env now reports l forks).2.stored head.account =
      forks.stored head.account ∪ reportedHeights reports := by
  induction reports generalizing l forks counter with
  | nil => simp [processForks, reportedHeights]
  | cons fork rest ih =>
      have hrest : ∀ other ∈ rest, ValidFork head other := fun other hmem =>
        hvalid other (List.mem_cons_of_mem _ hmem)
      have hstep : Reported env now _ forks head _ _ := h.report (hvalid fork List.mem_cons_self)
      rw [reportedHeights_cons]
      change (processForks env now rest _ _).2.stored head.account = _
      generalize processBlockFork_ env now ForkCall.never l forks fork.1 fork.2 = result at hstep ⊢
      by_cases hold : fork.1.height ∈ forks.stored head.account
      · obtain ⟨hheads, hsame⟩ := hstep.old hold
        rw [ih hheads hcounter hrest, hsame, Finset.insert_eq_of_mem hold]
      · obtain ⟨hheads, hinsert⟩ := hstep.room hold (Nat.lt_of_lt_of_le hcounter hwide)
        rw [ih hheads (Nat.mod_lt _ (by decide)) hrest, hinsert]

theorem stored_lowest_iff {l : Ledger} {forks : ForkTable} (h : Heads l forks head 0)
    (hnone : forks.stored head.account = ∅) {reports : List (Block × Block)}
    (hvalid : ∀ fork ∈ reports, ValidFork head fork) :
    (processForks env now reports l forks).2.stored head.account =
        lowest (maxAllowedForks env.network now head.credit + 2) (reportedHeights reports) ↔
      maxAllowedForks env.network now head.credit + 2 < 2 ^ 16 ∨
        (reportedHeights reports).card ≤ maxAllowedForks env.network now head.credit + 2 := by
  by_cases hfits : maxAllowedForks env.network now head.credit + 2 < 2 ^ 16
  · have hlowest := @processForks_lowest env now head hfits reports l forks ∅ (by rwa [hnone])
      hvalid (by rw [hnone]; rfl)
    rw [hlowest, Finset.empty_union]
    exact iff_of_true rfl (.inl hfits)
  · rw [processForks_all (Nat.not_lt.mp hfits) reports h (by decide) hvalid, hnone,
      Finset.empty_union, eq_comm, lowest_eq_self_iff]
    exact ⟨.inr, fun hor => hor.resolve_left hfits⟩

end Run

-- After any sequence of valid forks, in any order and with repetitions, the lowest reported
-- heights are stored exactly if the 16 bits that count the forks can hold as many as are
-- allowed, or no more than that many were reported.
theorem lowest_forks_stored (env : Env) (now : Nat) (l : Ledger) (forks : ForkTable) (head : Block)
    (reports : List (Block × Block)) (h : Heads l forks head 0)
    (hnone : forks.stored head.account = ∅) (hvalid : ∀ fork ∈ reports, ValidFork head fork) :
    (processForks env now reports l forks).2.stored head.account =
        lowest (maxAllowedForks env.network now head.credit + 2) (reportedHeights reports) ↔
      maxAllowedForks env.network now head.credit + 2 < 2 ^ 16 ∨
        (reportedHeights reports).card ≤ maxAllowedForks env.network now head.credit + 2 :=
  stored_lowest_iff h hnone hvalid

section Crowd

-- Blocks for one height that differ in what they do.
def crowdBlock (opcode : BlockOpcode) (height : Nat) : Block :=
  sampleTx opcode 65535 1 chainTime (UInt64.ofNat height) (genesisPublicKey .test)
    (BitVec.ofNat 256 height) (genesisRepresentative .test) 0 1

def crowdHead : Block := crowdBlock .change 70000

-- An account with all the credit there is, at height 70000.
def crowdLedger : Ledger :=
  let genesis := genesisLedger chainEnv true true
  let info := { AccountInfo.first .txBlock 9 with headHeight := 70000 }
  { genesis with store := { genesis.store with
      accounts := genesis.store.accounts.put (genesisPublicKey .test) info
      blocks := genesis.store.blocks.put 9 ⟨crowdHead, 0⟩ } }

def crowdReports (count : Nat) : List (Block × Block) :=
  (List.range count).map fun height => (crowdBlock .change height, crowdBlock .send height)

theorem crowdBlock_height {opcode : BlockOpcode} {height : Nat} (h : height < 2 ^ 64) :
    (crowdBlock opcode height).height = height := UInt64.toNat_ofNat_of_lt' h

theorem crowd_heads : Heads crowdLedger .empty crowdHead 0 where
  keyed key entry hget := by
    rw [Table.get_empty] at hget
    cases hget
  info := by
    refine ⟨{ AccountInfo.first .txBlock 9 with headHeight := 70000 }, ?_, by decide, by decide, ?_, rfl⟩
    · exact (Table.get_put _ _ _ _).trans (if_pos rfl)
    · rw [Store.blockGet]
      change (Table.get (Table.put _ 9 ⟨crowdHead, 0⟩) 9).map StoredBlock.block = some crowdHead
      rw [Table.get_put, if_pos rfl]
      rfl

theorem crowdReports_valid {count : Nat} (h : count ≤ 70001) :
    ∀ fork ∈ crowdReports count, ValidFork crowdHead fork := by
  intro fork hmem
  obtain ⟨height, hheight, rfl⟩ := List.mem_map.mp hmem
  rw [List.mem_range] at hheight
  have hlt : height < 2 ^ 64 := by omega
  have hne : crowdBlock .change height ≠ crowdBlock .send height := fun heq =>
    absurd (congrArg Block.opcode heq) (by simp [crowdBlock, sampleTx, Block.opcode])
  have haccount : (crowdBlock .change height).account = (crowdBlock .send height).account := rfl
  refine ⟨?_, rfl, ?_⟩
  · simp [Block.forkWith, haccount, crowdBlock_height hlt, hne]
  · rw [crowdBlock_height hlt, crowdHead, crowdBlock_height (by decide)]
    omega

theorem crowdReports_heights {count : Nat} (h : count ≤ 70001) :
    reportedHeights (crowdReports count) = Finset.range count := by
  ext height
  simp only [reportedHeights, crowdReports, List.map_map, List.mem_toFinset, List.mem_map,
    List.mem_range, Function.comp_apply, Finset.mem_range]
  constructor
  · rintro ⟨height', hlt, rfl⟩
    rwa [crowdBlock_height (by omega)]
  · intro hlt
    exact ⟨height, hlt, crowdBlock_height (by omega)⟩

theorem crowd_allowed : maxAllowedForks chainEnv.network chainTime crowdHead.credit + 2 = 65541 := by
  decide

-- 65542 forks are reported where 65541 are allowed, and none of them is evicted.
theorem crowd_not_evicted :
    (∀ fork ∈ crowdReports 65542, ValidFork crowdHead fork) ∧
      Heads crowdLedger .empty crowdHead 0 ∧
      (processForks chainEnv chainTime (crowdReports 65542) crowdLedger .empty).2.stored
          crowdHead.account ≠
        lowest (maxAllowedForks chainEnv.network chainTime crowdHead.credit + 2)
          (reportedHeights (crowdReports 65542)) := by
  have hvalid := crowdReports_valid (show 65542 ≤ 70001 by decide)
  refine ⟨hvalid, crowd_heads, fun heq => ?_⟩
  have hor := (stored_lowest_iff crowd_heads (by simp [ForkTable.stored, ForkTable.places]) hvalid).mp heq
  rw [crowd_allowed, crowdReports_heights (by decide), Finset.card_range] at hor
  omega

theorem lowest_forks_stored_sample :
    (processForks chainEnv chainTime (crowdReports 3) crowdLedger .empty).2.stored
        crowdHead.account =
        lowest (maxAllowedForks chainEnv.network chainTime crowdHead.credit + 2)
          (reportedHeights (crowdReports 3)) ↔
      maxAllowedForks chainEnv.network chainTime crowdHead.credit + 2 < 2 ^ 16 ∨
        (reportedHeights (crowdReports 3)).card ≤
          maxAllowedForks chainEnv.network chainTime crowdHead.credit + 2 :=
  lowest_forks_stored chainEnv chainTime crowdLedger .empty crowdHead (crowdReports 3) crowd_heads
    (by simp [ForkTable.stored, ForkTable.places]) (crowdReports_valid (by decide))

end Crowd

end Raicoin
