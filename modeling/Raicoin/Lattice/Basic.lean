import Raicoin.Lattice.Rules

namespace Raicoin

section Relations

variable (env : Env) (blocks : Finset Block)

-- `p` is what stands below `b`, if anything does.
def Before : Option Block → Block → Prop
  | none, b => b.height = 0
  | some p, b => p ∈ blocks ∧ Follows p b

-- `s` is a SEND and makes its amount receivable.
def Sends (s : Block) (key : Account × BlockHash) (info : ReceivableInfo) : Prop :=
  s ∈ blocks ∧ s.opcode = .send ∧ key = (s.link, env.hash s) ∧
    ∃ p ∈ blocks, Follows p s ∧ info = ⟨s.account, p.balance - s.balance, s.timestamp⟩

-- `b` was the head until `c` came, and its representative may claim a reward for that time.
def Yields (b : Block) (key : Account × BlockHash) (info : RewardableInfo) : Prop :=
  b ∈ blocks ∧ b.hasRepresentative = true ∧ key = (b.representative, env.hash b) ∧
    ∃ c ∈ blocks, Follows b c ∧ rewardAmount env.network b.balance b.timestamp c.timestamp ≠ 0 ∧
      info = ⟨b.account, rewardAmount env.network b.balance b.timestamp c.timestamp,
        rewardTimestamp env.network b.timestamp c.timestamp⟩

def Taken (opcode : BlockOpcode) (hash : BlockHash) : Prop :=
  ∃ r ∈ blocks, r.opcode = opcode ∧ r.link = hash

-- `r` takes in exactly `amount`.
def Gains (r : Block) (amount : Amount) : Prop :=
  ∃ previous, Before blocks previous r ∧ earned env previous r = amount.toNat

def Receives (r : Block) (info : ReceivableInfo) : Prop :=
  (∃ s, Sends env blocks s (r.account, r.link) info) ∧ info.timestamp ≤ r.timestamp ∧
    Gains env blocks r info.amount

def Rewards (r : Block) (info : RewardableInfo) : Prop :=
  (∃ b, Yields env blocks b (r.account, r.link) info) ∧ info.validTimestamp ≤ r.timestamp ∧
    Gains env blocks r info.amount

end Relations

-- What a ledger stands for: the blocks of all accounts, such that every block was
-- allowed where it stands and took in nothing twice.
structure Lattice (env : Env) where
  blocks : Finset Block
  genesis_mem : genesisBlock env.network ∈ blocks
  unique : ∀ b ∈ blocks, ∀ c ∈ blocks, b.account = c.account → b.height = c.height → b = c
  hash_inj : ∀ b ∈ blocks, ∀ c ∈ blocks, env.hash b = env.hash c → b = c
  hash_ne_zero : ∀ b ∈ blocks, env.hash b ≠ 0
  hash_ne_link : ∀ b ∈ blocks, env.hash b ≠ (genesisBlock env.network).link
  height_ne : ∀ b ∈ blocks, b.height ≠ INVALID_HEIGHT
  legal : ∀ b ∈ blocks, b.Legal
  epoch_le : ∀ b ∈ blocks, epochTimestamp env.network ≤ b.timestamp
  opens : ∀ b ∈ blocks, b.height = 0 → Opens b
  linked : ∀ b ∈ blocks, b.height ≠ 0 → ∃ p ∈ blocks, Succeeds env p b
  received : ∀ r ∈ blocks, r.opcode = .receive → r ≠ genesisBlock env.network →
    ∃ info, Receives env blocks r info
  rewarded : ∀ r ∈ blocks, r.opcode = .reward → ∃ info, Rewards env blocks r info
  taken_once : ∀ r ∈ blocks, ∀ q ∈ blocks, r.opcode = .receive ∨ r.opcode = .reward →
    q.opcode = r.opcode → q.link = r.link → r = q
  ordered : ∃ rank : Block → Nat, ∀ b ∈ blocks, ∀ c ∈ blocks, Depends env b c → rank b < rank c

namespace Lattice

variable {env : Env} (A : Lattice env)

theorem succeeds {p b : Block} (hp : p ∈ A.blocks) (hb : b ∈ A.blocks) (h : Follows p b) :
    Succeeds env p b := by
  obtain ⟨q, hq, hs⟩ := A.linked b hb (by unfold Follows at h; omega)
  obtain ⟨haccount, hheight⟩ := h.unique_left hs.follows
  rwa [A.unique p hp q hq haccount hheight]

theorem follower_unique {p b c : Block} (hb : b ∈ A.blocks) (hc : c ∈ A.blocks)
    (hpb : Follows p b) (hpc : Follows p c) : b = c := by
  obtain ⟨haccount, hheight⟩ := hpb.unique_right hpc
  exact A.unique b hb c hc haccount hheight

theorem before_unique {o o' : Option Block} {b : Block} (h : Before A.blocks o b)
    (h' : Before A.blocks o' b) : o = o' := by
  cases o with
  | none =>
      cases o' with
      | none => rfl
      | some q =>
          obtain ⟨-, hq⟩ := h'
          unfold Before Follows at *
          omega
  | some p =>
      obtain ⟨hp, hpb⟩ := h
      cases o' with
      | none =>
          unfold Before Follows at *
          omega
      | some q =>
          obtain ⟨hq, hqb⟩ := h'
          obtain ⟨haccount, hheight⟩ := hpb.unique_left hqb
          rw [A.unique p hp q hq haccount hheight]

theorem before_exists {b : Block} (hb : b ∈ A.blocks) : ∃ o, Before A.blocks o b := by
  by_cases hz : b.height = 0
  · exact ⟨none, hz⟩
  · obtain ⟨p, hp, hs⟩ := A.linked b hb hz
    exact ⟨some p, hp, hs.follows⟩

-- Chains have no gaps.
theorem below {b : Block} (hb : b ∈ A.blocks) {height : Nat} (hle : height ≤ b.height) :
    ∃ c ∈ A.blocks, c.account = b.account ∧ c.height = height := by
  obtain ⟨distance, hd⟩ := Nat.exists_eq_add_of_le hle
  induction distance generalizing b with
  | zero => exact ⟨b, hb, rfl, by omega⟩
  | succ distance ih =>
      obtain ⟨p, hp, hs⟩ := A.linked b hb (by omega)
      obtain ⟨haccount, hheight⟩ := hs.follows
      obtain ⟨c, hc, hca, hch⟩ := ih hp (by omega) (by omega)
      exact ⟨c, hc, hca.trans haccount.symm, hch⟩

-- What holds from each block to the one on it holds along the chain.
theorem along {R : Block → Block → Prop} (hrefl : ∀ b, R b b)
    (htrans : ∀ {x y z}, R x y → R y z → R x z)
    (hstep : ∀ p ∈ A.blocks, ∀ c ∈ A.blocks, Succeeds env p c → R p c)
    {b c : Block} (hb : b ∈ A.blocks) (hc : c ∈ A.blocks) (haccount : b.account = c.account)
    (hle : b.height ≤ c.height) : R b c := by
  obtain ⟨distance, hd⟩ := Nat.exists_eq_add_of_le hle
  induction distance generalizing c with
  | zero =>
      rw [A.unique b hb c hc haccount hd.symm]
      exact hrefl c
  | succ distance ih =>
      obtain ⟨p, hp, hs⟩ := A.linked c hc (by omega)
      obtain ⟨hpa, hph⟩ := hs.follows
      exact htrans (ih hp (haccount.trans hpa) (by omega) (by omega)) (hstep p hp c hc hs)

theorem timestamp_le {b c : Block} (hb : b ∈ A.blocks) (hc : c ∈ A.blocks)
    (haccount : b.account = c.account) (hle : b.height ≤ c.height) : b.timestamp ≤ c.timestamp :=
  A.along (R := fun x y => x.timestamp ≤ y.timestamp) (fun _ => Nat.le_refl _) Nat.le_trans
    (fun _ _ _ _ hs => hs.timestamp) hb hc haccount hle

theorem credit_le {b c : Block} (hb : b ∈ A.blocks) (hc : c ∈ A.blocks)
    (haccount : b.account = c.account) (hle : b.height ≤ c.height) : b.credit ≤ c.credit := by
  refine A.along (R := fun x y => x.credit ≤ y.credit) (fun _ => Nat.le_refl _) Nat.le_trans
    (fun p _ x _ hs => ?_) hb hc haccount hle
  have hcredit := hs.credit
  split at hcredit <;> omega

theorem credit_pos {b : Block} (hb : b ∈ A.blocks) : 1 ≤ b.credit := by
  obtain ⟨c, hc, haccount, hz⟩ := A.below hb (Nat.zero_le _)
  have hopens := (A.opens c hc hz).credit
  have hle := A.credit_le hc hb haccount (by omega)
  omega

theorem type_eq {b c : Block} (hb : b ∈ A.blocks) (hc : c ∈ A.blocks)
    (haccount : b.account = c.account) : b.type = c.type := by
  have hup {x y : Block} (hx : x ∈ A.blocks) (hy : y ∈ A.blocks) (ha : x.account = y.account)
      (hle : x.height ≤ y.height) : x.type = y.type :=
    A.along (R := fun x y => x.type = y.type) (fun _ => rfl) Eq.trans
      (fun _ _ _ _ hs => hs.type.symm) hx hy ha hle
  rcases Nat.le_total b.height c.height with hle | hle
  · exact hup hb hc haccount hle
  · exact (hup hc hb haccount.symm hle).symm

-- The block that nothing stands on is the highest of its account.
theorem le_top {b c : Block} (htop : ∀ d ∈ A.blocks, ¬Follows b d)
    (hc : c ∈ A.blocks) (haccount : c.account = b.account) : c.height ≤ b.height := by
  by_contra hlt
  obtain ⟨d, hd, hda, hdh⟩ := A.below hc (show b.height + 1 ≤ c.height by omega)
  exact htop d hd ⟨hda.trans haccount, hdh⟩

theorem top_unique {b c : Block} (hb : b ∈ A.blocks) (hc : c ∈ A.blocks)
    (haccount : b.account = c.account) (htop : ∀ d ∈ A.blocks, ¬Follows b d)
    (htop' : ∀ d ∈ A.blocks, ¬Follows c d) : b = c :=
  A.unique b hb c hc haccount
    (Nat.le_antisymm (A.le_top htop' hb haccount) (A.le_top htop hc haccount.symm))

-- A send is known by its hash, and so is what it makes receivable.
theorem sends_unique {s s' : Block} {key key' : Account × BlockHash} {info info' : ReceivableInfo}
    (h : Sends env A.blocks s key info) (h' : Sends env A.blocks s' key' info')
    (hkey : key.2 = key'.2) : s = s' ∧ key = key' ∧ info = info' := by
  obtain ⟨hs, -, rfl, p, hp, hf, rfl⟩ := h
  obtain ⟨hs', -, rfl, p', hp', hf', rfl⟩ := h'
  obtain rfl := A.hash_inj s hs s' hs' hkey
  obtain ⟨haccount, hheight⟩ := hf.unique_left hf'
  obtain rfl := A.unique p hp p' hp' haccount hheight
  exact ⟨rfl, rfl, rfl⟩

theorem yields_unique {b b' : Block} {key key' : Account × BlockHash} {info info' : RewardableInfo}
    (h : Yields env A.blocks b key info) (h' : Yields env A.blocks b' key' info')
    (hkey : key.2 = key'.2) : b = b' ∧ key = key' ∧ info = info' := by
  obtain ⟨hb, -, rfl, c, hc, hf, -, rfl⟩ := h
  obtain ⟨hb', -, rfl, c', hc', hf', -, rfl⟩ := h'
  obtain rfl := A.hash_inj b hb b' hb' hkey
  obtain rfl := A.follower_unique hc hc' hf hf'
  exact ⟨rfl, rfl, rfl⟩

end Lattice

end Raicoin
