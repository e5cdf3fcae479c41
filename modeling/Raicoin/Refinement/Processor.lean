import Raicoin.Node.BlockProcessor.Processor
import Raicoin.Refinement.Reach

-- How the fork counts of the accounts keep up with the stored forks.
namespace Raicoin

open Lib

namespace ForkTable

-- The entries that are stored for an account.
def places (forks : ForkTable) (account : Account) : Finset (Account × Nat) :=
  forks.keys.filter fun key => key.1 = account

def count (forks : ForkTable) (account : Account) : Nat := (forks.places account).card

-- Entries stand under the place of their blocks.
def Keyed (forks : ForkTable) : Prop := ∀ key entry, forks.get key = some entry →
  entry.1.account = key.1 ∧ entry.1.height = key.2 ∧ key.2 < 2 ^ 64 - 1

variable {forks : ForkTable} {account : Account} {height : Nat} {entry : Block × Block}

@[simp] theorem mem_places {key : Account × Nat} :
    key ∈ forks.places account ↔ (∃ entry, forks.get key = some entry) ∧ key.1 = account := by
  simp [places]

theorem count_empty (account : Account) : count .empty account = 0 := by
  rw [count, Finset.card_eq_zero, Finset.eq_empty_iff_forall_notMem]
  simp

theorem count_eq_zero : forks.count account = 0 ↔ ∀ height, forks.get (account, height) = none := by
  rw [count, Finset.card_eq_zero, Finset.eq_empty_iff_forall_notMem]
  constructor
  · intro h height
    by_contra hne
    exact h (account, height) (mem_places.mpr ⟨Option.ne_none_iff_exists'.mp hne, rfl⟩)
  · rintro h ⟨account', height⟩ hmem
    obtain ⟨⟨entry, hget⟩, rfl⟩ := mem_places.mp hmem
    simp [h] at hget

theorem count_put_new (hnew : forks.get (account, height) = none) :
    count (forks.put (account, height) entry) account = forks.count account + 1 := by
  have hplaces : places (forks.put (account, height) entry) account =
      insert (account, height) (forks.places account) := by
    ext key
    by_cases hkey : key = (account, height)
    · simp [hkey]
    · simp [hkey]
  rw [count, hplaces, Finset.card_insert_of_notMem (by simp [hnew]), count]

theorem count_put_other {other : Account} (hne : other ≠ account) :
    count (forks.put (account, height) entry) other = forks.count other := by
  have hplaces : places (forks.put (account, height) entry) other = forks.places other := by
    ext key
    by_cases hkey : key = (account, height)
    · simp [hkey, Ne.symm hne]
    · simp [hkey]
  rw [count, hplaces, count]

theorem count_del (hold : forks.get (account, height) = some entry) :
    count (forks.del (account, height)) account + 1 = forks.count account := by
  have hput := @count_put_new (forks.del (account, height)) account height entry (by simp)
  rw [← hput, Table.put_del _ _ _ hold]

theorem count_del_other {other : Account} (hne : other ≠ account) :
    count (forks.del (account, height)) other = forks.count other := by
  have hplaces : places (forks.del (account, height)) other = forks.places other := by
    ext key
    by_cases hkey : key = (account, height)
    · simp [hkey, Ne.symm hne]
    · simp [hkey]
  rw [count, hplaces, count]

theorem Keyed.put (h : Keyed forks) (haccount : entry.1.account = account)
    (hheight : entry.1.height = height) (hlt : height < 2 ^ 64 - 1) :
    Keyed (forks.put (account, height) entry) := by
  intro key entry' hget
  rw [Table.get_put] at hget
  split at hget
  · rename_i hkey
    cases hget
    rw [hkey]
    exact ⟨haccount, hheight, hlt⟩
  · exact h key entry' hget

theorem Keyed.del (h : Keyed forks) (key : Account × Nat) : Keyed (forks.del key) := by
  intro key' entry' hget
  rw [Table.get_del] at hget
  split at hget
  · cases hget
  · exact h key' entry' hget

-- The iterators meet the entries of the account, all of them.
theorem mem_entries (h : Keyed forks) : entry ∈ forks.entries account ↔
    forks.get (account, entry.1.height) = some entry := by
  simp only [entries, List.mem_filterMap, heights, Finset.mem_sort, Finset.mem_image,
    Finset.mem_filter, Table.mem_keys]
  constructor
  · rintro ⟨height, -, hget⟩
    have hheight := (h _ _ hget).2.1
    rwa [hheight]
  · intro hget
    exact ⟨_, ⟨_, ⟨⟨_, hget⟩, rfl, (h _ _ hget).2.2⟩, rfl⟩, hget⟩

private theorem map_height {heights : List Nat} (h : Keyed forks)
    (hall : ∀ height ∈ heights, ∃ entry, forks.get (account, height) = some entry) :
    (heights.filterMap fun height => forks.get (account, height)).map (fun entry => entry.1.height) =
      heights := by
  induction heights with
  | nil => rfl
  | cons height rest ih =>
      obtain ⟨entry, hget⟩ := hall height List.mem_cons_self
      have hrest := ih fun height' hmem => hall height' (List.mem_cons_of_mem _ hmem)
      simp only [List.filterMap_cons, hget, List.map_cons, hrest, (h _ _ hget).2.1]

theorem entries_heights (h : Keyed forks) :
    (forks.entries account).map (fun entry => entry.1.height) = forks.heights account := by
  refine map_height h fun height hmem => ?_
  simp only [heights, Finset.mem_sort, Finset.mem_image, Finset.mem_filter, Table.mem_keys] at hmem
  obtain ⟨⟨account', height'⟩, ⟨⟨entry, hget⟩, rfl, -⟩, rfl⟩ := hmem
  exact ⟨entry, hget⟩

theorem entries_nodup (h : Keyed forks) :
    ((forks.entries account).map fun entry => entry.1.height).Nodup := by
  rw [entries_heights h]
  exact Finset.sort_nodup _ _

-- Entries are counted by their heights.
theorem count_eq_length {heights : List Nat} (hnodup : heights.Nodup)
    (hmem : ∀ height, height ∈ heights ↔ ∃ entry, forks.get (account, height) = some entry) :
    forks.count account = heights.length := by
  have hplaces : forks.places account = heights.toFinset.image fun height => (account, height) := by
    ext ⟨account', height⟩
    simp only [mem_places, Finset.mem_image, List.mem_toFinset, Prod.mk.injEq]
    constructor
    · rintro ⟨hget, rfl⟩
      exact ⟨height, (hmem height).mpr hget, rfl, rfl⟩
    · rintro ⟨height', hheight, rfl, rfl⟩
      exact ⟨(hmem height').mp hheight, rfl⟩
  rw [count, hplaces, Finset.card_image_of_injective _ fun x y hxy => (Prod.mk.inj hxy).2,
    List.toFinset_card_of_nodup hnodup]

-- What is left when the entries at some heights are deleted.
def Without (forks : ForkTable) (account : Account) (heights : List Nat) (forks' : ForkTable) :
    Prop :=
  ∀ key, forks'.get key = if key.1 = account ∧ key.2 ∈ heights then none else forks.get key

theorem Without.keyed {heights : List Nat} {forks' : ForkTable}
    (h : Without forks account heights forks') (hkeyed : Keyed forks) : Keyed forks' := by
  intro key entry hget
  rw [h key] at hget
  split at hget
  · cases hget
  · exact hkeyed key entry hget

theorem Without.cons {height : Nat} {heights : List Nat} {forks' : ForkTable}
    (h : Without (forks.del (account, height)) account heights forks') :
    Without forks account (height :: heights) forks' := by
  rintro ⟨account', height'⟩
  rw [h, Table.get_del]
  by_cases hin : account' = account ∧ height' ∈ heights
  · rw [if_pos hin, if_pos ⟨hin.1, List.mem_cons_of_mem _ hin.2⟩]
  · rw [if_neg hin]
    by_cases hkey : account' = account ∧ height' = height
    · rw [if_pos (Prod.ext hkey.1 hkey.2), if_pos ⟨hkey.1, hkey.2 ▸ List.mem_cons_self⟩]
    · rw [if_neg fun he => hkey (Prod.mk.inj he), if_neg]
      rintro ⟨haccount, hmem⟩
      rcases List.mem_cons.mp hmem with hheight | hheight
      · exact hkey ⟨haccount, hheight⟩
      · exact hin ⟨haccount, hheight⟩

theorem forkDel_never (height : Nat) : forkDel ForkCall.never forks account height =
    if forks.get (account, height) = none then none else some (forks.del (account, height)) := by
  simp [forkDel, ForkCall.never]

-- Deleting what is not there leaves the table as it is, deleted all the same.
theorem del_missing {key : Account × Nat} (hnone : forks.get key = none) : forks.del key = forks := by
  ext1 key'
  by_cases hkey : key' = key
  · simp [hkey, hnone]
  · simp [hkey]

theorem foldl_forkDel (heights : List Nat) (forks : ForkTable) : Without forks account heights
    (heights.foldl (fun forks height =>
      (forkDel ForkCall.never forks account height).getD forks) forks) := by
  induction heights generalizing forks with
  | nil =>
      intro key
      simp
  | cons height rest ih =>
      rw [List.foldl_cons]
      refine Without.cons ?_
      have hdel : (forkDel ForkCall.never forks account height).getD forks =
          forks.del (account, height) := by
        rw [forkDel_never]
        split
        · rename_i hnone
          exact (del_missing hnone).symm
        · rfl
      rw [hdel]
      exact ih _

theorem forkDelEach_never {heights : List Nat} (hnodup : heights.Nodup)
    (hall : ∀ height ∈ heights, ∃ entry, forks.get (account, height) = some entry) :
    Without forks account heights (forkDelEach ForkCall.never account heights forks) := by
  induction heights generalizing forks with
  | nil =>
      intro key
      simp [forkDelEach]
  | cons height rest ih =>
      obtain ⟨entry, hget⟩ := hall height List.mem_cons_self
      obtain ⟨hnotin, hrest⟩ := List.nodup_cons.mp hnodup
      have hdel : forkDel ForkCall.never forks account height =
          some (forks.del (account, height)) := by
        rw [forkDel_never, if_neg (by simp [hget])]
      rw [forkDelEach, hdel]
      refine Without.cons (ih hrest fun height' hmem => ?_)
      obtain ⟨entry', hget'⟩ := hall height' (List.mem_cons_of_mem _ hmem)
      have hne : (account, height') ≠ (account, height) := by
        intro he
        obtain rfl := (Prod.mk.inj he).2
        exact hnotin hmem
      exact ⟨entry', by rw [Table.get_del, if_neg hne, hget']⟩

theorem forkDelAll_never (h : Keyed forks) :
    count (forkDelAll ForkCall.never forks account) account = 0 ∧
      Without forks account (forks.heights account) (forkDelAll ForkCall.never forks account) := by
  have hown : ¬∃ entry ∈ forks.entries account, entry.1.account ≠ account := by
    rintro ⟨entry, hmem, hne⟩
    exact hne (h _ _ ((mem_entries h).mp hmem)).1
  have hwithout : Without forks account (forks.heights account)
      (forkDelAll ForkCall.never forks account) := by
    rw [forkDelAll, if_neg hown, entries_heights h]
    refine forkDelEach_never (Finset.sort_nodup _ _) fun height hmem => ?_
    rw [← entries_heights h, List.mem_map] at hmem
    obtain ⟨entry, hentry, rfl⟩ := hmem
    exact ⟨entry, (mem_entries h).mp hentry⟩
  refine ⟨count_eq_zero.mpr fun height => ?_, hwithout⟩
  rw [hwithout]
  split
  · rfl
  · rename_i hout
    by_contra hne
    obtain ⟨entry, hget⟩ := Option.ne_none_iff_exists'.mp hne
    refine hout ⟨rfl, ?_⟩
    rw [← entries_heights h, List.mem_map]
    have hheight := (h _ _ hget).2.1
    exact ⟨entry, (mem_entries h).mpr (by rw [hheight]; exact hget), hheight⟩

theorem count_eq_entries (h : Keyed forks) : forks.count account = (forks.entries account).length := by
  rw [count_eq_length (entries_nodup h) fun height => ?_, List.length_map]
  rw [List.mem_map]
  constructor
  · rintro ⟨entry, hmem, rfl⟩
    exact ⟨entry, (mem_entries h).mp hmem⟩
  · rintro ⟨entry, hget⟩
    have hheight := (h _ _ hget).2.1
    exact ⟨entry, (mem_entries h).mpr (by rw [hheight]; exact hget), hheight⟩

-- Once the entries above `top` are deleted, those that were not above it are counted.
theorem count_below (h : Keyed forks) {top : Nat} {forks' : ForkTable}
    (hwithout : Without forks account (((forks.entries account).filter fun entry =>
      entry.1.height > top).map fun entry => entry.1.height) forks') :
    forks'.count account =
      ((forks.entries account).filter fun entry => entry.1.height ≤ top).length := by
  rw [← List.length_map fun entry : Block × Block => entry.1.height]
  refine count_eq_length ((List.filter_sublist.map _).nodup (entries_nodup h)) fun height => ?_
  rw [hwithout, List.mem_map]
  constructor
  · rintro ⟨entry, hmem, rfl⟩
    obtain ⟨hmem, hle⟩ := List.mem_filter.mp hmem
    refine ⟨entry, ?_⟩
    rw [if_neg]
    · exact (mem_entries h).mp hmem
    · rintro ⟨-, hin⟩
      obtain ⟨other, hother, hheight⟩ := List.mem_map.mp hin
      have hgt := of_decide_eq_true (List.mem_filter.mp hother).2
      have hle := of_decide_eq_true hle
      omega
  · rintro ⟨entry, hget⟩
    split at hget
    · cases hget
    · rename_i hout
      have hheight : entry.1.height = height := (h _ _ hget).2.1
      have hmem : entry ∈ forks.entries account :=
        (mem_entries h).mpr (by rw [hheight]; exact hget)
      refine ⟨entry, List.mem_filter.mpr ⟨hmem, decide_eq_true ?_⟩, hheight⟩
      by_contra hgt
      refine hout ⟨rfl, List.mem_map.mpr ⟨entry, List.mem_filter.mpr ⟨hmem, ?_⟩, hheight⟩⟩
      exact decide_eq_true (by omega)

end ForkTable

-- The count in the info of an account is right, and no entry is above its head.
def Counted (l : Ledger) (forks : ForkTable) (account : Account) : Prop :=
  match l.store.accountInfoGet account with
  | none => forks.count account = 0
  | some info => info.forks = forks.count account ∧
      ∀ height entry, forks.get (account, height) = some entry → height ≤ info.headHeight

section Infos

variable {env : Env} {blocks : Set Block} {A : Lattice env} {l l' : Ledger} {forks : ForkTable}
  {account : Account} {info : AccountInfo}

theorem Counted.congr {forks' : ForkTable} (h : Counted l forks account)
    (hinfo : l'.store.accountInfoGet account = l.store.accountInfoGet account)
    (hforks : ∀ height, forks'.get (account, height) = forks.get (account, height)) :
    Counted l' forks' account := by
  have hcount : forks'.count account = forks.count account := by
    have hplaces : forks'.places account = forks.places account := by
      ext ⟨account', height⟩
      simp only [ForkTable.mem_places]
      refine and_congr_left fun hkey => ?_
      subst hkey
      rw [hforks]
    rw [ForkTable.count, hplaces, ForkTable.count]
  unfold Counted at h ⊢
  rw [hinfo, hcount]
  split <;> rename_i hget <;> rw [hget] at h
  · exact h
  · exact ⟨h.1, fun height entry hentry => h.2 height entry ((hforks height).symm.trans hentry)⟩

@[simp] theorem putInfo_accountInfoGet (l : Ledger) (account other : Account) (info : AccountInfo) :
    (l.putInfo account info).store.accountInfoGet other =
      if other = account then some info else l.store.accountInfoGet other := by
  simp [Ledger.putInfo, Store.accountInfoGet]

-- The lattice does not see the fork counts.
theorem Tracks.putForks (h : Tracks blocks l A) (hinfo : l.store.accountInfoGet account = some info)
    (forks : Nat) : Tracks blocks (l.putInfo account { info with forks := forks }) A := by
  refine ⟨{ h.represents with accounts := ⟨fun b hb => ?_, fun account' info' hget => ?_⟩ },
    h.subset⟩
  · have hopened := h.represents.accounts.opened b hb
    simp only [Ledger.putInfo, Table.get_put]
    split
    · rfl
    · exact hopened
  · simp only [Ledger.putInfo, Table.get_put] at hget
    split at hget
    · rename_i he
      cases hget
      subst he
      obtain ⟨hhead, htail, hzero, hconfirmed⟩ := h.represents.accounts.describes _ _ hinfo
      exact ⟨hhead, htail, hzero, hconfirmed⟩
    · exact h.represents.accounts.describes _ _ hget

theorem Tracks.valid_filter (h : Tracks blocks l A) :
    (l.store.accountInfoGet account).filter AccountInfo.valid = l.store.accountInfoGet account := by
  cases hget : l.store.accountInfoGet account with
  | none => rfl
  | some info => simp [Option.filter, h.represents.valid hget]

theorem Tracks.headHeight_lt (h : Tracks blocks l A)
    (hinfo : l.store.accountInfoGet account = some info) : info.headHeight < 2 ^ 64 - 1 := by
  obtain ⟨b, hb, -, hheight, -⟩ := h.represents.head hinfo
  have hne := A.height_ne b hb
  have hlt := b.height_lt
  unfold INVALID_HEIGHT at hne
  omega

end Infos

section UpdateForks

variable {env : Env} {blocks : Set Block} {A : Lattice env} {l : Ledger} {forks : ForkTable}
  {account : Account}

-- What a round of `UpdateForks_` leaves behind.
structure Updated (env : Env) (blocks : Set Block) (A : Lattice env) (l : Ledger)
    (forks : ForkTable) (account : Account) (result : Ledger × ForkTable) : Prop where
  tracks : Tracks blocks result.1 A
  keyed : result.2.Keyed
  counted : Counted result.1 result.2 account
  info_other : ∀ other, other ≠ account →
    result.1.store.accountInfoGet other = l.store.accountInfoGet other
  get_other : ∀ other, other ≠ account → ∀ height,
    result.2.get (other, height) = forks.get (other, height)
  count_le : result.2.count account ≤ forks.count account

theorem updateFork_spec (h : Tracks blocks l A) (hkeyed : forks.Keyed)
    (hfew : forks.count account < 2 ^ 16) :
    Updated env blocks A l forks account (updateFork ForkCall.never l forks account) := by
  unfold updateFork
  rw [h.valid_filter]
  cases hinfo : l.store.accountInfoGet account with
  | none =>
      obtain ⟨hzero, hwithout⟩ := @ForkTable.forkDelAll_never forks account hkeyed
      refine ⟨h, hwithout.keyed hkeyed, ?_, fun _ _ => rfl, fun other hne height => ?_, ?_⟩
      · unfold Counted
        rw [hinfo]
        exact hzero
      · rw [hwithout, if_neg fun hin => hne hin.1]
      · rw [hzero]
        exact Nat.zero_le _
  | some info =>
      have hown : ((forks.entries account).filter fun entry => entry.1.account = account) =
          forks.entries account := by
        rw [List.filter_eq_self]
        intro entry hmem
        exact decide_eq_true (hkeyed _ _ ((ForkTable.mem_entries hkeyed).mp hmem)).1
      dsimp only
      rw [hown]
      have hwithout := @ForkTable.foldl_forkDel account
        (((forks.entries account).filter fun entry => entry.1.height > info.headHeight).map
          fun entry => entry.1.height) forks
      have hcount := ForkTable.count_below hkeyed hwithout
      have hle := List.length_filter_le (fun entry => decide (entry.1.height ≤ info.headHeight))
        (forks.entries account)
      rw [← ForkTable.count_eq_entries hkeyed] at hle
      rw [← hcount] at hle ⊢
      generalize ((((forks.entries account).filter fun entry =>
        entry.1.height > info.headHeight).map fun entry => entry.1.height).foldl (fun forks height =>
          (forks.forkDel ForkCall.never account height).getD forks) forks) = kept at *
      have hlow : ∀ height entry, kept.get (account, height) = some entry →
          height ≤ info.headHeight := by
        intro height entry hget
        rw [hwithout] at hget
        split at hget
        · cases hget
        · rename_i hout
          by_contra hgt
          have hheight := (hkeyed _ _ hget).2.1
          refine hout ⟨rfl, List.mem_map.mpr ⟨entry, List.mem_filter.mpr ⟨?_, ?_⟩, hheight⟩⟩
          · exact (ForkTable.mem_entries hkeyed).mpr (by rw [hheight]; exact hget)
          · exact decide_eq_true (by dsimp only at hheight; omega)
      have hsame : kept.count account % 2 ^ 16 = kept.count account := Nat.mod_eq_of_lt (by omega)
      rw [hsame]
      have hget : ∀ other, other ≠ account → ∀ height,
          kept.get (other, height) = forks.get (other, height) := by
        intro other hne height
        rw [hwithout, if_neg fun hin => hne hin.1]
      split
      · refine ⟨h.putForks hinfo _, hwithout.keyed hkeyed, ?_, fun other hne => ?_, hget, hle⟩
        · unfold Counted
          rw [putInfo_accountInfoGet, if_pos rfl]
          exact ⟨rfl, hlow⟩
        · rw [putInfo_accountInfoGet, if_neg hne]
      · rename_i hkeep
        refine ⟨h, hwithout.keyed hkeyed, ?_, fun _ _ => rfl, hget, hle⟩
        unfold Counted
        rw [hinfo]
        refine ⟨?_, hlow⟩
        by_contra hne
        exact hkeep ⟨Ne.symm hne, rfl⟩

-- The same for all accounts of a list.
structure Swept (env : Env) (blocks : Set Block) (A : Lattice env) (l : Ledger)
    (forks : ForkTable) (accounts : List Account) (result : Ledger × ForkTable) : Prop where
  tracks : Tracks blocks result.1 A
  keyed : result.2.Keyed
  counted : ∀ account, account ∈ accounts ∨ Counted l forks account →
    Counted result.1 result.2 account
  count_le : ∀ account, result.2.count account ≤ forks.count account

theorem Updated.count_other {result : Ledger × ForkTable}
    (h : Updated env blocks A l forks account result) {other : Account} (hne : other ≠ account) :
    result.2.count other = forks.count other := by
  have hplaces : result.2.places other = forks.places other := by
    ext ⟨account', height⟩
    simp only [ForkTable.mem_places]
    refine and_congr_left fun hkey => ?_
    subst hkey
    rw [h.get_other _ hne]
  rw [ForkTable.count, hplaces, ForkTable.count]

theorem Updated.counted_any {result : Ledger × ForkTable}
    (h : Updated env blocks A l forks account result) {other : Account}
    (hother : other = account ∨ Counted l forks other) : Counted result.1 result.2 other := by
  by_cases he : other = account
  · subst he
    exact h.counted
  · rcases hother with heq | hcounted
    · exact absurd heq he
    · exact hcounted.congr (h.info_other other he) (h.get_other other he)

theorem foldl_updateFork {accounts : List Account} (h : Tracks blocks l A) (hkeyed : forks.Keyed)
    (hfew : ∀ account, forks.count account < 2 ^ 16) :
    Swept env blocks A l forks accounts (accounts.foldl
      (fun state account => updateFork ForkCall.never state.1 state.2 account) (l, forks)) := by
  induction accounts generalizing l forks with
  | nil =>
      refine ⟨h, hkeyed, fun account hor => ?_, fun _ => Nat.le_refl _⟩
      rcases hor with hmem | hcounted
      · exact absurd hmem List.not_mem_nil
      · exact hcounted
  | cons account rest ih =>
      have hstep := updateFork_spec h hkeyed (hfew account)
      have hle : ∀ other, (updateFork ForkCall.never l forks account).2.count other ≤
          forks.count other := by
        intro other
        by_cases he : other = account
        · subst he
          exact hstep.count_le
        · exact Nat.le_of_eq (hstep.count_other he)
      have hrest := ih hstep.tracks hstep.keyed fun other => Nat.lt_of_le_of_lt (hle other) (hfew other)
      rw [List.foldl_cons]
      refine ⟨hrest.tracks, hrest.keyed, fun other hor => hrest.counted other ?_,
        fun other => Nat.le_trans (hrest.count_le other) (hle other)⟩
      rcases hor with hmem | hcounted
      · rcases List.mem_cons.mp hmem with he | hmem
        · exact .inr (hstep.counted_any (.inl he))
        · exact .inl hmem
      · exact .inr (hstep.counted_any (.inr hcounted))

theorem updateForks_spec {accounts : List Account} (h : Tracks blocks l A) (hkeyed : forks.Keyed)
    (hfew : ∀ account, forks.count account < 2 ^ 16) :
    Swept env blocks A l forks accounts (updateForks_ ForkCall.never l forks accounts) :=
  foldl_updateFork h hkeyed hfew

end UpdateForks

section ProcessBlockFork

variable {env : Env} {blocks : Set Block} {A : Lattice env} {l : Ledger} {forks : ForkTable}
  {first second : Block} {now : Nat} {fails : ForkCall → Bool}

-- There is a number left for the entry that the call is about to count.
def Room (env : Env) (now : Nat) (l : Ledger) (forks : ForkTable) (first second : Block) : Prop :=
  ∀ info head, first.forkWith second = true →
    l.store.accountInfoGet first.account = some info → first.height ≤ info.headHeight →
    l.store.blockGet info.head = some head →
    info.forks < maxAllowedForks env.network now head.credit + 2 →
    forks.get (first.account, first.height) = none → forks.count first.account < 2 ^ 16 - 1

structure Forked (env : Env) (blocks : Set Block) (A : Lattice env) (l : Ledger)
    (forks : ForkTable) (result : ForkResult) : Prop where
  tracks : Tracks blocks result.ledger A
  keyed : result.forks.Keyed
  counted : ∀ account, Counted l forks account → Counted result.ledger result.forks account
  few : ∀ account, result.forks.count account < 2 ^ 16

private theorem foldl_furthest {height : Nat} {entries : List (Block × Block)}
    {found : Option (Block × Block)} {fork : Block × Block}
    (hfound : ∀ other, found = some other → height < other.1.height)
    (h : entries.foldl (fun found entry =>
      let maxHeight := match found with
        | none => height
        | some fork => fork.1.height
      if entry.1.height > maxHeight then some entry else found) found = some fork) :
    (found = some fork ∨ fork ∈ entries) ∧ height < fork.1.height := by
  induction entries generalizing found with
  | nil => exact ⟨.inl h, hfound fork h⟩
  | cons entry rest ih =>
      have htake (hgt : height < entry.1.height) (htail : rest.foldl (fun found entry =>
          let maxHeight := match found with
            | none => height
            | some fork => fork.1.height
          if entry.1.height > maxHeight then some entry else found) (some entry) = some fork) :
          (found = some fork ∨ fork ∈ entry :: rest) ∧ height < fork.1.height := by
        obtain ⟨hor, hlt⟩ := ih (fun other he => Option.some.inj he ▸ hgt) htail
        refine ⟨.inr ?_, hlt⟩
        rcases hor with he | hmem
        · exact Option.some.inj he ▸ List.mem_cons_self
        · exact List.mem_cons_of_mem _ hmem
      rw [List.foldl_cons] at h
      cases found with
      | none =>
          by_cases hgt : entry.1.height > height
          · exact htake hgt (by simpa [hgt] using h)
          · obtain ⟨hor, hlt⟩ := ih hfound (by simpa [hgt] using h)
            exact ⟨hor.imp_right (List.mem_cons_of_mem _), hlt⟩
      | some before =>
          have hbefore := hfound before rfl
          by_cases hgt : entry.1.height > before.1.height
          · exact htake (Nat.lt_trans hbefore hgt) (by simpa [hgt] using h)
          · obtain ⟨hor, hlt⟩ := ih hfound (by simpa [hgt] using h)
            exact ⟨hor.imp_right (List.mem_cons_of_mem _), hlt⟩

theorem furthestFork_mem {height : Nat} {entries : List (Block × Block)} {fork : Block × Block}
    (h : furthestFork height entries = some fork) : fork ∈ entries ∧ height < fork.1.height := by
  obtain ⟨hor, hlt⟩ := foldl_furthest (fun _ he => by cases he) h
  exact ⟨hor.resolve_left (by simp), hlt⟩

theorem processBlockFork_spec (h : Tracks blocks l A) (hkeyed : forks.Keyed)
    (hfew : ∀ account, forks.count account < 2 ^ 16) (hroom : Room env now l forks first second) :
    Forked env blocks A l forks (processBlockFork_ env now fails l forks first second) := by
  have hunchanged (election : Bool) : Forked env blocks A l forks ⟨l, forks, false, election, none⟩ :=
    ⟨h, hkeyed, fun _ hcounted => hcounted, hfew⟩
  unfold processBlockFork_
  dsimp only
  split
  · exact hunchanged false
  rename_i hfork
  split
  · exact hunchanged false
  rw [h.valid_filter]
  cases hinfo : l.store.accountInfoGet first.account with
  | none => exact hunchanged false
  | some info =>
      dsimp only
      split
      · exact hunchanged false
      rename_i hheight
      split
      · exact hunchanged _
      rename_i hnew
      have hnone : forks.get (first.account, first.height) = none := by
        simpa [Table.contains] using hnew
      have hlt := h.headHeight_lt hinfo
      split
      · exact hunchanged false
      rename_i head hhead
      split
      · rename_i hallowed
        split
        · exact hunchanged false
        have hcount := hroom info head (eq_true_of_ne_false hfork) hinfo
          (Nat.not_lt.mp hheight) hhead hallowed hnone
        refine ⟨h.putForks hinfo _, hkeyed.put rfl rfl (by omega), fun account hcounted => ?_,
          fun account => ?_⟩
        · by_cases he : account = first.account
          · subst he
            unfold Counted at hcounted ⊢
            rw [hinfo] at hcounted
            obtain ⟨hforks, hlow⟩ := hcounted
            rw [putInfo_accountInfoGet, if_pos rfl]
            refine ⟨?_, fun height entry hget => ?_⟩
            · rw [ForkTable.count_put_new hnone, hforks]
              exact Nat.mod_eq_of_lt (by omega)
            · rw [Table.get_put] at hget
              split at hget
              · rename_i hkey
                have := (Prod.mk.inj hkey).2
                dsimp only
                omega
              · exact hlow height entry hget
          · refine hcounted.congr ?_ fun height => ?_
            · rw [putInfo_accountInfoGet, if_neg he]
            · rw [Table.get_put, if_neg fun hkey => he (Prod.mk.inj hkey).1]
        · by_cases he : account = first.account
          · subst he
            rw [ForkTable.count_put_new hnone]
            omega
          · rw [ForkTable.count_put_other he]
            exact hfew account
      split
      · exact hunchanged false
      split
      · exact hunchanged false
      rename_i fork hfork
      obtain ⟨hmem, hgt⟩ := furthestFork_mem hfork
      have hold := (ForkTable.mem_entries hkeyed).mp hmem
      split
      · exact hunchanged false
      rename_i forks' hdel
      split
      · exact hunchanged false
      have hforks' : forks' = forks.del (first.account, fork.1.height) := by
        unfold ForkTable.forkDel at hdel
        split at hdel
        · cases hdel
        · exact (Option.some.inj hdel).symm
      subst hforks'
      have hnone' : (forks.del (first.account, fork.1.height)).get
          (first.account, first.height) = none := by
        rw [Table.get_del]
        split
        · rfl
        · exact hnone
      -- one entry goes and one comes
      have hcount (account : Account) : ForkTable.count ((forks.del (first.account,
          fork.1.height)).put (first.account, first.height) (first, second)) account =
          forks.count account := by
        by_cases he : account = first.account
        · subst he
          rw [ForkTable.count_put_new hnone', ForkTable.count_del hold]
        · rw [ForkTable.count_put_other he, ForkTable.count_del_other he]
      refine ⟨h, (hkeyed.del _).put rfl rfl (by omega), fun account hcounted => ?_,
        fun account => by rw [hcount]; exact hfew account⟩
      unfold Counted at hcounted ⊢
      dsimp only
      rw [hcount]
      split
      · rename_i hget
        rw [hget] at hcounted
        exact hcounted
      · rename_i info' hget
        rw [hget] at hcounted
        refine ⟨hcounted.1, fun height entry hentry => ?_⟩
        rw [Table.get_put, Table.get_del] at hentry
        split at hentry
        · rename_i hkey
          obtain ⟨haccount, rfl⟩ := Prod.mk.inj hkey
          rw [haccount, hinfo] at hget
          obtain rfl := Option.some.inj hget
          omega
        · split at hentry
          · cases hentry
          · exact hcounted.2 height entry hentry

end ProcessBlockFork

end Raicoin
