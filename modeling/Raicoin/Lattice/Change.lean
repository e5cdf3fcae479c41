import Mathlib.Order.Lattice.Nat
import Raicoin.Lattice.Basic

namespace Raicoin

-- A block that nothing stands on changes little of what the others are to each other.
section Insert

variable {env : Env} {blocks : Finset Block} {b : Block}

theorem before_insert (htop : ∀ c ∈ blocks, ¬Follows b c) {o : Option Block} {c : Block}
    (hc : c ∈ insert b blocks) : Before (insert b blocks) o c ↔ Before blocks o c := by
  cases o with
  | none => rfl
  | some p =>
      have hp : Follows p c → p ≠ b := by
        rintro hf rfl
        rcases Finset.mem_insert.mp hc with rfl | hc
        · exact hf.irrefl _
        · exact htop c hc hf
      unfold Before
      constructor
      · rintro ⟨hmem, hf⟩
        exact ⟨Finset.mem_of_mem_insert_of_ne hmem (hp hf), hf⟩
      · rintro ⟨hmem, hf⟩
        exact ⟨Finset.mem_insert_of_mem hmem, hf⟩

theorem gains_insert (htop : ∀ c ∈ blocks, ¬Follows b c) {c : Block} {amount : Amount}
    (hc : c ∈ insert b blocks) :
    Gains env (insert b blocks) c amount ↔ Gains env blocks c amount := by
  simp only [Gains, before_insert htop hc]

theorem sends_insert (htop : ∀ c ∈ blocks, ¬Follows b c) {s : Block} {key : Account × BlockHash}
    {info : ReceivableInfo} :
    Sends env (insert b blocks) s key info ↔ Sends env blocks s key info ∨
      s = b ∧ b.opcode = .send ∧ key = (b.link, env.hash b) ∧
        ∃ p ∈ blocks, Follows p b ∧ info = ⟨b.account, p.balance - b.balance, b.timestamp⟩ := by
  have hbelow {s : Block} (hs : s ∈ insert b blocks) (p : Block) :
      p ∈ insert b blocks ∧ Follows p s ↔ p ∈ blocks ∧ Follows p s :=
    before_insert (o := some p) htop hs
  constructor
  · rintro ⟨hs, hop, hkey, p, hp, hf, hinfo⟩
    obtain ⟨hold, hf⟩ := (hbelow hs p).mp ⟨hp, hf⟩
    rcases Finset.mem_insert.mp hs with rfl | hs
    · exact .inr ⟨rfl, hop, hkey, p, hold, hf, hinfo⟩
    · exact .inl ⟨hs, hop, hkey, p, hold, hf, hinfo⟩
  · rintro (⟨hs, hop, hkey, p, hp, hf, hinfo⟩ | ⟨rfl, hop, hkey, p, hp, hf, hinfo⟩)
    · exact ⟨Finset.mem_insert_of_mem hs, hop, hkey, p, Finset.mem_insert_of_mem hp, hf, hinfo⟩
    · exact ⟨Finset.mem_insert_self _ _, hop, hkey, p, Finset.mem_insert_of_mem hp, hf, hinfo⟩

theorem yields_insert (htop : ∀ c ∈ blocks, ¬Follows b c) {x : Block} {key : Account × BlockHash}
    {info : RewardableInfo} :
    Yields env (insert b blocks) x key info ↔ Yields env blocks x key info ∨
      x ∈ blocks ∧ Follows x b ∧ x.hasRepresentative = true ∧
        key = (x.representative, env.hash x) ∧
        rewardAmount env.network x.balance x.timestamp b.timestamp ≠ 0 ∧
        info = ⟨x.account, rewardAmount env.network x.balance x.timestamp b.timestamp,
          rewardTimestamp env.network x.timestamp b.timestamp⟩ := by
  constructor
  · rintro ⟨hx, hrep, hkey, c, hc, hf, hne, hinfo⟩
    have hold : x ∈ blocks := ((before_insert (o := some x) htop hc).mp ⟨hx, hf⟩).1
    rcases Finset.mem_insert.mp hc with rfl | hc
    · exact .inr ⟨hold, hf, hrep, hkey, hne, hinfo⟩
    · exact .inl ⟨hold, hrep, hkey, c, hc, hf, hne, hinfo⟩
  · rintro (⟨hx, hrep, hkey, c, hc, hf, hne, hinfo⟩ | ⟨hx, hf, hrep, hkey, hne, hinfo⟩)
    · exact ⟨Finset.mem_insert_of_mem hx, hrep, hkey, c, Finset.mem_insert_of_mem hc, hf, hne,
        hinfo⟩
    · exact ⟨Finset.mem_insert_of_mem hx, hrep, hkey, b, Finset.mem_insert_self _ _, hf, hne,
        hinfo⟩

theorem taken_insert {opcode : BlockOpcode} {hash : BlockHash} :
    Taken (insert b blocks) opcode hash ↔
      Taken blocks opcode hash ∨ b.opcode = opcode ∧ b.link = hash := by
  simp only [Taken, Finset.mem_insert]
  constructor
  · rintro ⟨r, rfl | hr, h⟩
    · exact .inr h
    · exact .inl ⟨r, hr, h⟩
  · rintro (⟨r, hr, h⟩ | h)
    · exact ⟨r, .inr hr, h⟩
    · exact ⟨b, .inl rfl, h⟩

theorem receives_insert (htop : ∀ c ∈ blocks, ¬Follows b c) {r : Block} {info : ReceivableInfo}
    (hr : r ∈ insert b blocks) (hlink : b.opcode = .send → r.link ≠ env.hash b) :
    Receives env (insert b blocks) r info ↔ Receives env blocks r info := by
  unfold Receives
  rw [gains_insert htop hr]
  refine and_congr_left fun _ => exists_congr fun s => ?_
  rw [sends_insert htop, or_iff_left]
  rintro ⟨-, hop, hkey, -⟩
  exact hlink hop (Prod.ext_iff.mp hkey).2

theorem rewards_insert (htop : ∀ c ∈ blocks, ¬Follows b c) {r : Block} {info : RewardableInfo}
    (hr : r ∈ insert b blocks)
    (hlink : ∀ x ∈ blocks, Follows x b → r.link ≠ env.hash x) :
    Rewards env (insert b blocks) r info ↔ Rewards env blocks r info := by
  unfold Rewards
  rw [gains_insert htop hr]
  refine and_congr_left fun _ => exists_congr fun x => ?_
  rw [yields_insert htop, or_iff_left]
  rintro ⟨hx, hf, -, hkey, -⟩
  exact hlink x hx hf (Prod.ext_iff.mp hkey).2

end Insert

namespace Lattice

variable {env : Env} (A : Lattice env)

-- `b` may come next into the lattice.
structure Extends (b : Block) : Prop where
  vacant : ∀ c ∈ A.blocks, c.account = b.account → c.height ≠ b.height
  fresh : ∀ c ∈ A.blocks, env.hash c ≠ env.hash b
  hash_ne_zero : env.hash b ≠ 0
  hash_ne_link : env.hash b ≠ (genesisBlock env.network).link
  height_ne : b.height ≠ INVALID_HEIGHT
  legal : b.Legal
  epoch_le : epochTimestamp env.network ≤ b.timestamp
  opens : b.height = 0 → Opens b
  linked : b.height ≠ 0 → ∃ p ∈ A.blocks, Succeeds env p b
  received : b.opcode = .receive → ∃ info, Receives env A.blocks b info
  rewarded : b.opcode = .reward → ∃ info, Rewards env A.blocks b info
  not_taken : b.opcode = .receive ∨ b.opcode = .reward → ¬Taken A.blocks b.opcode b.link

-- `b` may leave the lattice: nothing in it depends on `b`.
structure Removable (b : Block) : Prop where
  mem : b ∈ A.blocks
  ne_genesis : b ≠ genesisBlock env.network
  top : ∀ c ∈ A.blocks, ¬Follows b c
  unreceived : b.opcode = .send → ¬Taken A.blocks .receive (env.hash b)
  unrewarded : ∀ p ∈ A.blocks, Follows p b → ¬Taken A.blocks .reward (env.hash p)

variable {A} {b : Block}

theorem Extends.not_mem (h : A.Extends b) : b ∉ A.blocks := fun hb => h.vacant b hb rfl rfl

theorem Extends.top (h : A.Extends b) : ∀ c ∈ A.blocks, ¬Follows b c := by
  intro c hc hf
  obtain ⟨p, hp, hs⟩ := A.linked c hc (by unfold Follows at hf; omega)
  obtain ⟨haccount, hheight⟩ := hs.follows.unique_left hf
  exact h.vacant p hp haccount hheight

-- Nobody can have taken a reward for the time that `b` is only about to end.
theorem Extends.unrewarded (h : A.Extends b) {p : Block} (hp : p ∈ A.blocks) (hf : Follows p b)
    {r : Block} (hr : r ∈ A.blocks) (hop : r.opcode = .reward) : r.link ≠ env.hash p := by
  intro hlink
  obtain ⟨info, ⟨q, hq, -, hkey, c, hc, hqc, -⟩, -⟩ := A.rewarded r hr hop
  obtain rfl := A.hash_inj q hq p hp (by rw [← hlink]; exact (Prod.ext_iff.mp hkey).2.symm)
  obtain ⟨haccount, hheight⟩ := hqc.unique_right hf
  exact h.vacant c hc haccount hheight

theorem Extends.unreceived (h : A.Extends b) {r : Block} (hr : r ∈ A.blocks)
    (hop : r.opcode = .receive) : r.link ≠ env.hash b := by
  intro hlink
  by_cases hg : r = genesisBlock env.network
  · exact h.hash_ne_link (by rw [← hlink, hg])
  · obtain ⟨info, ⟨s, hs, -, hkey, -⟩, -⟩ := A.received r hr hop hg
    exact h.fresh s hs (by rw [← hlink]; exact (Prod.ext_iff.mp hkey).2.symm)

theorem Extends.not_depends (h : A.Extends b) {c : Block} (hc : c ∈ insert b A.blocks) :
    ¬Depends env b c := by
  intro hd
  rcases Finset.mem_insert.mp hc with rfl | hc
  · rcases hd with hf | ⟨hsend, hop, -⟩ | ⟨hheight, hop, hlink⟩
    · exact hf.irrefl _
    · rw [hop] at hsend
      cases hsend
    · obtain ⟨p, hp, hs⟩ := h.linked hheight
      obtain ⟨info, ⟨q, hq, -, hkey, d, hd, hqd, -⟩, -⟩ := h.rewarded hop
      obtain rfl := A.hash_inj q hq p hp
        (by rw [← hs.previous, ← hlink]; exact (Prod.ext_iff.mp hkey).2.symm)
      obtain ⟨haccount, hheight⟩ := hqd.unique_right hs.follows
      exact h.vacant d hd haccount hheight
  · rcases hd with hf | ⟨-, hop, hlink⟩ | ⟨hheight, hop, hlink⟩
    · exact h.top c hc hf
    · exact h.unreceived hc hop hlink
    · obtain ⟨p, hp, hs⟩ := h.linked hheight
      exact h.unrewarded hp hs.follows hc hop (hlink.trans hs.previous)

-- Blocks that come later get a higher rank than all blocks before them.
theorem Extends.ordered (h : A.Extends b) : ∃ rank : Block → Nat, ∀ c ∈ insert b A.blocks,
    ∀ d ∈ insert b A.blocks, Depends env c d → rank c < rank d := by
  obtain ⟨rank, hrank⟩ := A.ordered
  refine ⟨fun x => if x = b then A.blocks.sup rank + 1 else rank x, fun c hc d hd hdep => ?_⟩
  have hcb : c ≠ b := by
    rintro rfl
    exact h.not_depends hd hdep
  have hcA := Finset.mem_of_mem_insert_of_ne hc hcb
  simp only [hcb, if_false]
  by_cases hdb : d = b
  · simp only [hdb, if_true]
    exact Nat.lt_succ_of_le (Finset.le_sup hcA)
  · simp only [hdb, if_false]
    exact hrank c hcA d (Finset.mem_of_mem_insert_of_ne hd hdb) hdep

private theorem push_taken_once (h : A.Extends b) : ∀ r ∈ insert b A.blocks,
    ∀ q ∈ insert b A.blocks, r.opcode = .receive ∨ r.opcode = .reward →
      q.opcode = r.opcode → q.link = r.link → r = q := by
  intro r hr q hq hop hopq hlink
  rcases Finset.mem_insert.mp hr with hrb | hrA <;> rcases Finset.mem_insert.mp hq with hqb | hqA
  · rw [hrb, hqb]
  · subst hrb
    exact absurd ⟨q, hqA, hopq, hlink⟩ (h.not_taken hop)
  · subst hqb
    exact absurd ⟨r, hrA, hopq.symm, hlink.symm⟩ (h.not_taken (hopq ▸ hop))
  · exact A.taken_once r hrA q hqA hop hopq hlink

private theorem push_unique (h : A.Extends b) : ∀ c ∈ insert b A.blocks, ∀ d ∈ insert b A.blocks,
    c.account = d.account → c.height = d.height → c = d := by
  intro c hc d hd haccount hheight
  rcases Finset.mem_insert.mp hc with hcb | hcA <;> rcases Finset.mem_insert.mp hd with hdb | hdA
  · rw [hcb, hdb]
  · subst hcb
    exact absurd hheight.symm (h.vacant d hdA haccount.symm)
  · subst hdb
    exact absurd hheight (h.vacant c hcA haccount)
  · exact A.unique c hcA d hdA haccount hheight

private theorem push_hash_inj (h : A.Extends b) : ∀ c ∈ insert b A.blocks,
    ∀ d ∈ insert b A.blocks, env.hash c = env.hash d → c = d := by
  intro c hc d hd hhash
  rcases Finset.mem_insert.mp hc with hcb | hcA <;> rcases Finset.mem_insert.mp hd with hdb | hdA
  · rw [hcb, hdb]
  · subst hcb
    exact absurd hhash.symm (h.fresh d hdA)
  · subst hdb
    exact absurd hhash (h.fresh c hcA)
  · exact A.hash_inj c hcA d hdA hhash

def push (A : Lattice env) (b : Block) (h : A.Extends b) : Lattice env where
  blocks := insert b A.blocks
  genesis_mem := Finset.mem_insert_of_mem A.genesis_mem
  unique := push_unique h
  hash_inj := push_hash_inj h
  hash_ne_zero := Finset.forall_mem_insert _ _ _ |>.mpr ⟨h.hash_ne_zero, A.hash_ne_zero⟩
  hash_ne_link := Finset.forall_mem_insert _ _ _ |>.mpr ⟨h.hash_ne_link, A.hash_ne_link⟩
  height_ne := Finset.forall_mem_insert _ _ _ |>.mpr ⟨h.height_ne, A.height_ne⟩
  legal := Finset.forall_mem_insert _ _ _ |>.mpr ⟨h.legal, A.legal⟩
  epoch_le := Finset.forall_mem_insert _ _ _ |>.mpr ⟨h.epoch_le, A.epoch_le⟩
  opens := Finset.forall_mem_insert _ _ _ |>.mpr ⟨h.opens, A.opens⟩
  linked := by
    have hmore {c : Block} : (∃ p ∈ A.blocks, Succeeds env p c) →
        ∃ p ∈ insert b A.blocks, Succeeds env p c := fun ⟨p, hp, hs⟩ =>
      ⟨p, Finset.mem_insert_of_mem hp, hs⟩
    exact Finset.forall_mem_insert _ _ _ |>.mpr
      ⟨fun hz => hmore (h.linked hz), fun c hc hz => hmore (A.linked c hc hz)⟩
  received := by
    intro r hr hop hg
    have hlink : b.opcode = .send → r.link ≠ env.hash b := by
      rintro hsend
      rcases Finset.mem_insert.mp hr with rfl | hr
      · rw [hop] at hsend
        cases hsend
      · exact h.unreceived hr hop
    simp only [receives_insert h.top hr hlink]
    rcases Finset.mem_insert.mp hr with rfl | hr
    · exact h.received hop
    · exact A.received r hr hop hg
  rewarded := by
    intro r hr hop
    have hold : ∃ info, Rewards env A.blocks r info := by
      rcases Finset.mem_insert.mp hr with rfl | hr
      · exact h.rewarded hop
      · exact A.rewarded r hr hop
    obtain ⟨info, ⟨x, hx⟩, htime, hgains⟩ := hold
    exact ⟨info, ⟨x, (yields_insert h.top).mpr (.inl hx)⟩, htime, (gains_insert h.top hr).mpr hgains⟩
  taken_once := push_taken_once h
  ordered := h.ordered

section Pop

variable (h : A.Removable b)
include h

private theorem insert_erase : insert b (A.blocks.erase b) = A.blocks := Finset.insert_erase h.mem

private theorem erase_top : ∀ c ∈ A.blocks.erase b, ¬Follows b c := fun c hc =>
  h.top c (Finset.mem_of_mem_erase hc)

private theorem pop_received : ∀ r ∈ A.blocks.erase b, r.opcode = .receive →
    r ≠ genesisBlock env.network → ∃ info, Receives env (A.blocks.erase b) r info := by
  intro r hr hop hg
  have hrA := Finset.mem_of_mem_erase hr
  obtain ⟨info, hrec⟩ := A.received r hrA hop hg
  refine ⟨info, (receives_insert (erase_top h) (Finset.mem_insert_of_mem hr) ?_).mp ?_⟩
  · exact fun hsend hlink => h.unreceived hsend ⟨r, hrA, hop, hlink⟩
  · rwa [insert_erase h]

private theorem pop_rewarded : ∀ r ∈ A.blocks.erase b, r.opcode = .reward →
    ∃ info, Rewards env (A.blocks.erase b) r info := by
  intro r hr hop
  have hrA := Finset.mem_of_mem_erase hr
  obtain ⟨info, hrew⟩ := A.rewarded r hrA hop
  refine ⟨info, (rewards_insert (erase_top h) (Finset.mem_insert_of_mem hr) ?_).mp ?_⟩
  · exact fun x hx hf hlink =>
      h.unrewarded x (Finset.mem_of_mem_erase hx) hf ⟨r, hrA, hop, hlink⟩
  · rwa [insert_erase h]

end Pop

def pop (A : Lattice env) (b : Block) (h : A.Removable b) : Lattice env where
  blocks := A.blocks.erase b
  genesis_mem := Finset.mem_erase.mpr ⟨h.ne_genesis.symm, A.genesis_mem⟩
  unique c hc d hd := A.unique c (Finset.mem_of_mem_erase hc) d (Finset.mem_of_mem_erase hd)
  hash_inj c hc d hd := A.hash_inj c (Finset.mem_of_mem_erase hc) d (Finset.mem_of_mem_erase hd)
  hash_ne_zero c hc := A.hash_ne_zero c (Finset.mem_of_mem_erase hc)
  hash_ne_link c hc := A.hash_ne_link c (Finset.mem_of_mem_erase hc)
  height_ne c hc := A.height_ne c (Finset.mem_of_mem_erase hc)
  legal c hc := A.legal c (Finset.mem_of_mem_erase hc)
  epoch_le c hc := A.epoch_le c (Finset.mem_of_mem_erase hc)
  opens c hc := A.opens c (Finset.mem_of_mem_erase hc)
  linked := by
    intro c hc hz
    have hcA := Finset.mem_of_mem_erase hc
    obtain ⟨p, hp, hs⟩ := A.linked c hcA hz
    refine ⟨p, Finset.mem_erase.mpr ⟨?_, hp⟩, hs⟩
    rintro rfl
    exact h.top c hcA hs.follows
  received := pop_received h
  rewarded := pop_rewarded h
  taken_once r hr q hq := A.taken_once r (Finset.mem_of_mem_erase hr) q (Finset.mem_of_mem_erase hq)
  ordered := by
    obtain ⟨rank, hrank⟩ := A.ordered
    exact ⟨rank, fun c hc d hd =>
      hrank c (Finset.mem_of_mem_erase hc) d (Finset.mem_of_mem_erase hd)⟩

-- A block that has left could come right back.
theorem Removable.extends (h : A.Removable b) : (A.pop b h).Extends b where
  vacant c hc haccount hheight :=
    Finset.ne_of_mem_erase hc (A.unique c (Finset.mem_of_mem_erase hc) b h.mem haccount hheight)
  fresh c hc hhash :=
    Finset.ne_of_mem_erase hc (A.hash_inj c (Finset.mem_of_mem_erase hc) b h.mem hhash)
  hash_ne_zero := A.hash_ne_zero b h.mem
  hash_ne_link := A.hash_ne_link b h.mem
  height_ne := A.height_ne b h.mem
  legal := A.legal b h.mem
  epoch_le := A.epoch_le b h.mem
  opens := A.opens b h.mem
  linked hz := by
    obtain ⟨p, hp, hs⟩ := A.linked b h.mem hz
    refine ⟨p, Finset.mem_erase.mpr ⟨?_, hp⟩, hs⟩
    rintro rfl
    exact hs.follows.irrefl _
  received hop := by
    obtain ⟨info, hrec⟩ := A.received b h.mem hop h.ne_genesis
    refine ⟨info, (receives_insert (erase_top h) (Finset.mem_insert_self _ _) ?_).mp ?_⟩
    · intro hsend
      rw [hop] at hsend
      cases hsend
    · rwa [insert_erase h]
  rewarded hop := by
    obtain ⟨info, hrew⟩ := A.rewarded b h.mem hop
    refine ⟨info, (rewards_insert (erase_top h) (Finset.mem_insert_self _ _) ?_).mp ?_⟩
    · exact fun x hx hf hlink =>
        h.unrewarded x (Finset.mem_of_mem_erase hx) hf ⟨b, h.mem, hop, hlink⟩
    · rwa [insert_erase h]
  not_taken hop := by
    rintro ⟨r, hr, hopr, hlink⟩
    exact Finset.ne_of_mem_erase hr
      (A.taken_once b h.mem r (Finset.mem_of_mem_erase hr) hop hopr hlink).symm

-- A block that has just come may leave again.
theorem Extends.removable (h : A.Extends b) : (A.push b h).Removable b where
  mem := Finset.mem_insert_self _ _
  ne_genesis := by
    rintro rfl
    exact h.not_mem A.genesis_mem
  top := Finset.forall_mem_insert _ _ _ |>.mpr ⟨Follows.irrefl b, h.top⟩
  unreceived := by
    rintro hsend ⟨r, hr, hop, hlink⟩
    rcases Finset.mem_insert.mp hr with rfl | hr
    · rw [hop] at hsend
      cases hsend
    · exact h.unreceived hr hop hlink
  unrewarded := by
    rintro p hp hf ⟨r, hr, hop, hlink⟩
    have hz : b.height ≠ 0 := by
      unfold Follows at hf
      omega
    have hpb : p ≠ b := by
      rintro rfl
      exact hf.irrefl _
    obtain ⟨q, hq, hs⟩ := h.linked hz
    have hpA := Finset.mem_of_mem_insert_of_ne hp hpb
    obtain ⟨haccount, hheight⟩ := hf.unique_left hs.follows
    obtain rfl := A.unique p hpA q hq haccount hheight
    exact h.not_depends hr (.inr (.inr ⟨hz, hop, hlink.trans hs.previous.symm⟩))

theorem Extends.erase_push (h : A.Extends b) : ((A.push b h).pop b h.removable).blocks = A.blocks :=
  Finset.erase_insert h.not_mem

theorem Removable.insert_pop (h : A.Removable b) : insert b (A.pop b h).blocks = A.blocks :=
  Finset.insert_erase h.mem

-- A lattice is its blocks.
theorem eq_of_blocks {A B : Lattice env} (h : A.blocks = B.blocks) : A = B := by
  cases A
  cases B
  cases h
  rfl

theorem Removable.push_pop (h : A.Removable b) : (A.pop b h).push b h.extends = A :=
  eq_of_blocks h.insert_pop

theorem Removable.before (h : A.Removable b) {o : Option Block} (ho : Before A.blocks o b) :
    Before (A.pop b h).blocks o b := by
  cases o with
  | none => exact ho
  | some p =>
      refine ⟨Finset.mem_erase.mpr ⟨?_, ho.1⟩, ho.2⟩
      rintro rfl
      exact ho.2.irrefl _

@[simp] theorem push_blocks (h : A.Extends b) : (A.push b h).blocks = insert b A.blocks := rfl

@[simp] theorem pop_blocks (h : A.Removable b) : (A.pop b h).blocks = A.blocks.erase b := rfl

end Lattice

end Raicoin
