import Raicoin.Refinement.Heads
import Raicoin.Secure.RepWeights
import Raicoin.Secure.Lists
import Mathlib.Algebra.BigOperators.Group.Finset.Basic

-- What the constructor of a ledger rebuilds from the tables.
namespace Raicoin

open Lib

def Ledger.loadWeight (l : Ledger) (b : Block) : Ledger :=
  if b.hasRepresentative = true ∧ b.balance ≠ 0 then
    { l with repWeights := l.repWeights.increase b.representative b.balance }
  else l

-- What `InitMemoryTables_` loads of one head.
def Ledger.load (l : Ledger) (b : Block) : Ledger :=
  ((l.loadWeight b).updateDelegatorList b).updateRichList b

section Load

variable {l : Ledger} {b : Block}

theorem Ledger.updateRichList_eq : l.updateRichList b =
    if l.enableRichList = true ∧ b.type = .txBlock then
      { l with richList := updateRichList_ l.richList b.account b.balance }
    else l := by
  unfold updateRichList
  split_ifs <;> simp_all

theorem Ledger.updateDelegatorList_eq : l.updateDelegatorList b =
    if l.enableDelegatorList = true ∧ b.hasRepresentative = true then
      { l with
        delegatorList := updateDelegatorList_ l.delegatorList b.account b.representative b.balance
          b.type }
    else l := by
  unfold updateDelegatorList
  split_ifs <;> simp_all

@[simp] theorem Ledger.load_store : (l.load b).store = l.store := by
  rw [load, updateRichList_eq, updateDelegatorList_eq, loadWeight]
  split_ifs <;> rfl

@[simp] theorem Ledger.load_repWeights : (l.load b).repWeights =
    if b.hasRepresentative = true ∧ b.balance ≠ 0 then
      l.repWeights.increase b.representative b.balance
    else l.repWeights := by
  rw [load, updateRichList_eq, updateDelegatorList_eq, loadWeight]
  split_ifs <;> rfl

@[simp] theorem Ledger.load_lists : (l.load b).lists = l.lists.follow b := by
  have hweight : (l.loadWeight b).lists = l.lists := by
    unfold loadWeight
    split <;> rfl
  rw [load, updateRichList_lists, updateDelegatorList_lists, hweight,
    Lists.updateRich_updateDelegators]

theorem Ledger.foldl_load_store (heads : List Block) : (heads.foldl load l).store = l.store := by
  induction heads generalizing l with
  | nil => rfl
  | cons b heads ih => rw [List.foldl_cons, ih, load_store]

theorem Ledger.foldl_load_lists (heads : List Block) :
    (heads.foldl load l).lists = heads.foldl Lists.follow l.lists := by
  induction heads generalizing l with
  | nil => rfl
  | cons b heads ih => rw [List.foldl_cons, List.foldl_cons, ih, load_lists]

end Load

section Heads

variable {l : Ledger} {env : Env} {A : Lattice env}

-- One round of the loop loads the head of an account.
theorem initMemoryTable_eq (h : Represents l.store A) (account : Account) :
    l.initMemoryTable account = .ok ((headOf l.store account).elim l l.load) := by
  unfold Ledger.initMemoryTable
  cases hinfo : l.store.accountInfoGet account with
  | none => simp [headOf, hinfo]; rfl
  | some info =>
      obtain ⟨b, hb, rfl, hheight, -, -, -, hget⟩ := h.head hinfo
      have hvalid : info.headHeight ≠ INVALID_HEIGHT := hheight ▸ A.height_ne b hb
      have hhead : headOf l.store b.account = some b := by simp [headOf, hinfo, hget]
      simp only [hvalid, if_false, hget, hhead, Option.elim_some]
      rw [Ledger.load, Ledger.updateRichList_eq, Ledger.updateDelegatorList_eq]
      rfl

theorem initMemoryTables_eq (h : Represents l.store A) (accounts : List Account) :
    l.initMemoryTables_ accounts =
      .ok ((accounts.filterMap (headOf l.store)).foldl Ledger.load l) := by
  unfold Ledger.initMemoryTables_
  induction accounts generalizing l with
  | nil => rfl
  | cons account accounts ih =>
      rw [List.foldlM_cons, initMemoryTable_eq h]
      cases hhead : headOf l.store account with
      | none =>
          rw [List.filterMap_cons_none hhead]
          exact ih h
      | some b =>
          rw [List.filterMap_cons_some hhead]
          have hrest := ih (l := l.load b) (by simpa using h)
          rwa [Ledger.load_store] at hrest

-- The keys of the accounts table, in some order.
def Enumerates (s : Store) (accounts : List Account) : Prop :=
  accounts.Nodup ∧ ∀ account, account ∈ accounts ↔ account ∈ s.accounts.keys

variable {s : Store} {accounts : List Account}

theorem Represents.map_account_heads (h : Represents s A) (accounts : List Account) :
    (accounts.filterMap (headOf s)).map Block.account =
      accounts.filter fun account => (headOf s account).isSome := by
  induction accounts with
  | nil => rfl
  | cons account accounts ih =>
      cases hhead : headOf s account with
      | none => simp [hhead, ih]
      | some b => simp [hhead, ih, (h.headOf_eq_some.mp hhead).2]

theorem Represents.heads_nodup (h : Represents s A) (henum : Enumerates s accounts) :
    ((accounts.filterMap (headOf s)).map Block.account).Nodup := by
  rw [h.map_account_heads]
  exact henum.1.filter _

theorem Represents.mem_heads_iff (h : Represents s A) (henum : Enumerates s accounts) {b : Block} :
    b ∈ accounts.filterMap (headOf s) ↔ b ∈ A.heads := by
  rw [List.mem_filterMap]
  constructor
  · rintro ⟨account, -, hhead⟩
    exact (h.headOf_eq_some.mp hhead).1
  · intro hb
    obtain ⟨info, hinfo, -⟩ := h.head_info hb
    exact ⟨b.account, (henum.2 _).mpr ((Table.mem_keys _ _).mpr ⟨info, hinfo⟩),
      h.headOf_eq_some.mpr ⟨hb, rfl⟩⟩

theorem Represents.sum_heads_list (h : Represents s A) (henum : Enumerates s accounts)
    (g : Block → Nat) : ((accounts.filterMap (headOf s)).map g).sum = ∑ b ∈ A.heads, g b := by
  have hset : (accounts.filterMap (headOf s)).toFinset = A.heads := by
    ext b
    rw [List.mem_toFinset, h.mem_heads_iff henum]
  rw [← hset, List.sum_toFinset g (h.heads_nodup henum).of_map]

end Heads

section Rebuild

-- Loading heads one by one adds up their weights.
theorem load_shows {l : Ledger} (heads : List Block) {weight : Account → Nat} {total : Nat} (h : l.repWeights.Shows weight total)
    (hle : ∀ r, weight r ≤ total)
    (hfits : total + (heads.map Block.totalWeight).sum < 2 ^ 128) :
    (heads.foldl Ledger.load l).repWeights.Shows
      (fun r => weight r + (heads.map (·.weight r)).sum)
      (total + (heads.map Block.totalWeight).sum) := by
  induction heads generalizing l weight total with
  | nil => simpa using h
  | cons b heads ih =>
      simp only [List.map_cons, List.sum_cons] at hfits ⊢
      have hone : (l.load b).repWeights.Shows (fun r => weight r + b.weight r)
          (total + b.totalWeight) := by
        rw [Ledger.load_repWeights]
        split <;> rename_i hrep
        · have hself : b.totalWeight = b.balance.toNat := by simp [Block.totalWeight, hrep.1]
          have hb := hle b.representative
          have hincrease := h.increase b.representative b.balance hrep.2 (by omega) (by omega)
          rw [hself]
          convert hincrease using 1
          funext r
          by_cases hr : r = b.representative
          · subst hr
            simp [Block.weight, hrep.1]
          · simp [hr, Block.weight, Ne.symm hr]
        · have hz : b.totalWeight = 0 ∧ ∀ r, b.weight r = 0 := by
            simp only [Block.totalWeight, Block.weight]
            grind
          simpa [hz] using h
      have hrest := ih hone (fun r => Nat.add_le_add (hle r) (b.weight_le r)) (by omega)
      simpa only [List.foldl_cons, Nat.add_assoc] using hrest

-- Heads of different accounts that are loaded one by one leave exactly their entries.
theorem foldl_look {σ ε : Type} (step : σ → Block → σ) (look : σ → Account → Option ε)
    (entry : Block → Option ε) {ready : σ → Prop} (hready : ∀ x b, ready x → ready (step x b))
    (hstep : ∀ x b, ready x → look x b.account = none → ∀ account,
      look (step x b) account = if account = b.account then entry b else look x account)
    {heads : List Block} {x : σ} (h : ready x) (hnodup : (heads.map Block.account).Nodup)
    (hnew : ∀ b ∈ heads, look x b.account = none) (account : Account) :
    look (heads.foldl step x) account =
      match heads.find? fun b => b.account = account with
      | some b => entry b
      | none => look x account := by
  induction heads generalizing x with
  | nil => rfl
  | cons b heads ih =>
      rw [List.map_cons, List.nodup_cons] at hnodup
      have hone := hstep x b h (hnew b List.mem_cons_self)
      rw [List.foldl_cons, ih (hready x b h) hnodup.2, List.find?_cons]
      · by_cases hb : b.account = account
        · have hnone : heads.find? (fun b => b.account = account) = none := by
            rw [List.find?_eq_none]
            intro other hother he
            refine hnodup.1 (List.mem_map.mpr ⟨other, hother, ?_⟩)
            rw [hb]
            simpa using he
          simp [hb, hnone, hone]
        · simp only [hb, decide_false]
          cases hfind : heads.find? fun b => b.account = account with
          | some other => rfl
          | none => exact (hone account).trans (if_neg (Ne.symm hb))
      · intro other hother
        rw [hone, if_neg, hnew other (List.mem_cons_of_mem _ hother)]
        intro he
        exact hnodup.1 (List.mem_map.mpr ⟨other, hother, he⟩)

end Rebuild

-- The weight of a representative, and all weight, as the heads of a store give them.
def Store.weight (s : Store) (representative : Account) : Nat :=
  s.sumHeads (·.weight representative)

def Store.totalWeight (s : Store) : Nat := s.sumHeads Block.totalWeight

-- Both lists are kept, and hold what the head of each account asks for.
structure Lists.Show (x : Lists) (s : Store) : Prop where
  enableRichList : x.enableRichList = true
  enableDelegatorList : x.enableDelegatorList = true
  richList : ∀ account, x.richList.get account = (headOf s account).bind richEntry
  delegatorList : ∀ account, x.delegatorList.get account = (headOf s account).bind delegatorEntry

theorem Lists.Show.unique {x y : Lists} {s : Store} (hx : x.Show s) (hy : y.Show s) : x = y := by
  have hrich : x.richList = y.richList :=
    Table.ext fun account => (hx.richList account).trans (hy.richList account).symm
  have hdelegators : x.delegatorList = y.delegatorList :=
    Table.ext fun account => (hx.delegatorList account).trans (hy.delegatorList account).symm
  have henable := hx.enableRichList.trans hy.enableRichList.symm
  have henable' := hx.enableDelegatorList.trans hy.enableDelegatorList.symm
  cases x
  cases y
  simp_all

section Rebuilt

variable {env : Env} {A : Lattice env} {s : Store} {accounts : List Account}

theorem Represents.weight_le (h : Represents s A) (representative : Account) :
    s.weight representative ≤ s.totalWeight := by
  rw [Store.weight, Store.totalWeight, h.sumHeads_eq, h.sumHeads_eq]
  exact Finset.sum_le_sum fun b _ => b.weight_le representative

theorem rebuilt_weights (h : Represents s A) (henum : Enumerates s accounts)
    (hfits : s.totalWeight < 2 ^ 128) (enableRichList enableDelegatorList : Bool) :
    ∃ l, (Ledger.start enableRichList enableDelegatorList s).initMemoryTables_ accounts = .ok l ∧
      l.repWeights.Shows s.weight s.totalWeight := by
  refine ⟨_, initMemoryTables_eq h accounts, ?_⟩
  have hsum (g : Block → Nat) : ((accounts.filterMap (headOf s)).map g).sum = s.sumHeads g := by
    rw [h.sum_heads_list henum, h.sumHeads_eq]
  have hshows := load_shows (l := Ledger.start enableRichList enableDelegatorList s)
    (accounts.filterMap (headOf s)) RepWeights.shows_empty (fun _ => Nat.le_refl _)
    (by rw [hsum, Nat.zero_add]; exact hfits)
  simp only [hsum, Nat.zero_add] at hshows
  exact hshows

theorem Represents.find_head (h : Represents s A) (henum : Enumerates s accounts)
    (account : Account) :
    (accounts.filterMap (headOf s)).find? (fun b => b.account = account) = headOf s account := by
  cases hfind : (accounts.filterMap (headOf s)).find? fun b => b.account = account with
  | some b =>
      have hmem := (h.mem_heads_iff henum).mp (List.mem_of_find?_eq_some hfind)
      have haccount := List.find?_some hfind
      exact (h.headOf_eq_some.mpr ⟨hmem, by simpa using haccount⟩).symm
  | none =>
      symm
      rw [Option.eq_none_iff_forall_ne_some]
      intro b hhead
      obtain ⟨hmem, haccount⟩ := h.headOf_eq_some.mp hhead
      rw [List.find?_eq_none] at hfind
      exact hfind b ((h.mem_heads_iff henum).mpr hmem) (by simpa using haccount)

theorem rebuilt_lists (h : Represents s A) (henum : Enumerates s accounts) :
    ∃ l, (Ledger.start true true s).initMemoryTables_ accounts = .ok l ∧ l.store = s ∧
      l.lists.Show s := by
  refine ⟨_, initMemoryTables_eq h accounts, Ledger.foldl_load_store _, ?_⟩
  rw [show (Ledger.start true true s).store = s from rfl, Ledger.foldl_load_lists]
  have hkept : ∀ (heads : List Block) (x : Lists),
      (heads.foldl Lists.follow x).enableRichList = x.enableRichList ∧
      (heads.foldl Lists.follow x).enableDelegatorList = x.enableDelegatorList := by
    intro heads
    induction heads with
    | nil => exact fun _ => ⟨rfl, rfl⟩
    | cons b heads ih => exact fun x => by simpa using ih (x.follow b)
  refine ⟨(hkept _ _).1, (hkept _ _).2, fun account => ?_, fun account => ?_⟩
  · have hlook := foldl_look Lists.follow (fun x => x.richList.get) richEntry
      (fun x b (hx : x.enableRichList = true) => by simpa using hx)
      (fun x b hx hnone account => Lists.follow_richList hx fun _ => hnone)
      (show (Ledger.start true true s).lists.enableRichList = true from rfl)
      (h.heads_nodup henum) (fun _ _ => rfl) account
    simp only [h.find_head henum] at hlook
    refine Eq.trans hlook ?_
    cases headOf s account <;> rfl
  · have hlook := foldl_look Lists.follow (fun x => x.delegatorList.get) delegatorEntry
      (fun x b (hx : x.enableDelegatorList = true) => by simpa using hx)
      (fun x b hx hnone account => Lists.follow_delegatorList hx fun _ => hnone)
      (show (Ledger.start true true s).lists.enableDelegatorList = true from rfl)
      (h.heads_nodup henum) (fun _ _ => rfl) account
    simp only [h.find_head henum] at hlook
    refine Eq.trans hlook ?_
    cases headOf s account <;> rfl

end Rebuilt

end Raicoin
