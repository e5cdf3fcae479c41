import Raicoin.Node.BlockProcessor.Replay
import Raicoin.Refinement.Reach

-- What is sent and what is earned can be claimed once.
namespace Raicoin

section Sends

variable (env : Env) (s : Store)

-- The amount of a SEND waits for its destination.
structure Receivable (b : Block) : Prop where
  entry : ∃ p, s.blockGet b.previous = some p ∧ b.balance.toNat < p.balance.toNat ∧
    s.receivables.get (b.link, env.hash b) =
      some ⟨b.account, p.balance - b.balance, b.timestamp⟩
  unreceived : ∀ r ∈ s.blockSet, r.opcode = .receive → r.link ≠ env.hash b

-- The destination has received it, and nobody else has.
structure Received (b : Block) : Prop where
  entry : s.receivables.get (b.link, env.hash b) = none
  received : ∃ r ∈ s.blockSet, r.opcode = .receive ∧ r.account = b.link ∧
    r.link = env.hash b ∧ ∀ q ∈ s.blockSet, q.opcode = .receive → q.link = env.hash b → q = r

variable {env s} {A : Lattice env} {b : Block}

theorem Lattice.received_by (hb : b ∈ A.blocks) {r : Block} (hr : r ∈ A.blocks)
    (hop : r.opcode = .receive) (hlink : r.link = env.hash b) : r.account = b.link := by
  have hg : r ≠ genesisBlock env.network := by
    rintro rfl
    exact A.hash_ne_link b hb hlink.symm
  obtain ⟨info, ⟨x, hx, -, hkey, -⟩, -⟩ := A.received r hr hop hg
  obtain ⟨haccount, hhash⟩ := Prod.mk.inj hkey
  rw [haccount, A.hash_inj x hx b hb (hhash.symm.trans hlink)]

theorem Represents.send_cases (h : Represents s A) (hb : b ∈ A.blocks) (hop : b.opcode = .send) :
    Receivable env s b ∨ Received env s b := by
  by_cases htaken : Taken A.blocks .receive (env.hash b)
  · obtain ⟨r, hr, hrop, hlink⟩ := htaken
    right
    constructor
    · rw [Option.eq_none_iff_forall_ne_some]
      exact fun info hget => ((h.receivables _ _).mp hget).2 ⟨r, hr, hrop, hlink⟩
    · rw [h.blockSet]
      refine ⟨r, hr, hrop, A.received_by hb hr hrop hlink, hlink, fun q hq hqop hqlink => ?_⟩
      exact A.taken_once q hq r hr (.inl hqop) (hrop.trans hqop.symm) (hlink.trans hqlink.symm)
  · obtain ⟨p, hp, hs⟩ := A.linked b hb (fun hz => by simpa [hop] using (A.opens b hb hz).opcode)
    have hbalance := hs.balance
    rw [BalanceRule, hop] at hbalance
    refine .inl ⟨⟨p, hs.previous ▸ h.blockGet hp, hbalance, ?_⟩, ?_⟩
    · exact (h.receivables _ _).mpr ⟨⟨b, hb, hop, rfl, p, hp, hs.follows, rfl⟩, htaken⟩
    · rw [h.blockSet]
      exact fun r hr hrop hlink => htaken ⟨r, hr, hrop, hlink⟩

theorem Receivable.not_received (h : Receivable env s b) : ¬Received env s b := by
  rintro ⟨hnone, -⟩
  obtain ⟨⟨p, -, -, hget⟩, -⟩ := h
  rw [hget] at hnone
  cases hnone

-- No double spend and no lost send, whatever was received and rolled back.
theorem reachable_sends {blocks : Set Block} {l : Ledger} (hcf : CollisionFree env blocks)
    (h : Reachable env blocks l) :
    (∀ b ∈ l.store.blockSet, b.opcode = .send →
      Xor (Receivable env l.store b) (Received env l.store b)) ∧
    ∀ key info, l.store.receivables.get key = some info →
      ∃ b ∈ l.store.blockSet, b.opcode = .send ∧ key = (b.link, env.hash b) := by
  obtain ⟨A, hA⟩ := h.tracks hcf
  rw [hA.represents.blockSet]
  constructor
  · intro b hb hop
    rcases hA.represents.send_cases hb hop with hwaits | hdone
    · exact .inl ⟨hwaits, hwaits.not_received⟩
    · exact .inr ⟨hdone, fun hwaits => hwaits.not_received hdone⟩
  · intro key info hget
    obtain ⟨⟨b, hb, hop, hkey, -⟩, -⟩ := (hA.represents.receivables _ _).mp hget
    exact ⟨b, hb, hop, hkey⟩

-- One SEND of the run was received, the other was not.
theorem sampleLedger_sends :
    Xor (Receivable sampleEnv sampleLedger.store sampleSend)
      (Received sampleEnv sampleLedger.store sampleSend) ∧
    Xor (Receivable sampleEnv sampleLedger.store sampleReturn)
      (Received sampleEnv sampleLedger.store sampleReturn) :=
  have h := (reachable_sends sample_collisionFree sampleLedger_reachable).1
  ⟨h sampleSend (by decide +kernel) rfl, h sampleReturn (by decide +kernel) rfl⟩

end Sends

section Rewards

variable (env : Env) (s : Store)

-- The reward for the time from `b` to `c` waits for the representative.
structure Rewardable (b c : Block) : Prop where
  entry : s.rewardables.get (b.representative, env.hash b) =
    some ⟨b.account, rewardAmount env.network b.balance b.timestamp c.timestamp,
      rewardTimestamp env.network b.timestamp c.timestamp⟩
  unrewarded : ∀ r ∈ s.blockSet, r.opcode = .reward → r.link ≠ env.hash b

-- The representative has claimed it, and nobody else has.
structure Rewarded (b : Block) : Prop where
  entry : s.rewardables.get (b.representative, env.hash b) = none
  rewarded : ∃ r ∈ s.blockSet, r.opcode = .reward ∧ r.account = b.representative ∧
    r.link = env.hash b ∧ ∀ q ∈ s.blockSet, q.opcode = .reward → q.link = env.hash b → q = r

variable {env s} {A : Lattice env} {b c : Block}

theorem Lattice.rewarded_by (hb : b ∈ A.blocks) {r : Block} (hr : r ∈ A.blocks)
    (hop : r.opcode = .reward) (hlink : r.link = env.hash b) : r.account = b.representative := by
  obtain ⟨info, ⟨x, hx, -, hkey, -⟩, -⟩ := A.rewarded r hr hop
  obtain ⟨haccount, hhash⟩ := Prod.mk.inj hkey
  rw [haccount, A.hash_inj x hx b hb (hhash.symm.trans hlink)]

theorem Represents.reward_cases (h : Represents s A) (hb : b ∈ A.blocks) (hc : c ∈ A.blocks)
    (hf : Follows b c) (hrep : b.hasRepresentative = true)
    (hamount : rewardAmount env.network b.balance b.timestamp c.timestamp ≠ 0) :
    Rewardable env s b c ∨ Rewarded env s b := by
  by_cases htaken : Taken A.blocks .reward (env.hash b)
  · obtain ⟨r, hr, hrop, hlink⟩ := htaken
    right
    constructor
    · rw [Option.eq_none_iff_forall_ne_some]
      exact fun info hget => ((h.rewardables _ _).mp hget).2 ⟨r, hr, hrop, hlink⟩
    · rw [h.blockSet]
      refine ⟨r, hr, hrop, A.rewarded_by hb hr hrop hlink, hlink, fun q hq hqop hqlink => ?_⟩
      exact A.taken_once q hq r hr (.inr hqop) (hrop.trans hqop.symm) (hlink.trans hqlink.symm)
  · left
    constructor
    · exact (h.rewardables _ _).mpr ⟨⟨b, hb, hrep, rfl, c, hc, hf, hamount, rfl⟩, htaken⟩
    · rw [h.blockSet]
      exact fun r hr hrop hlink => htaken ⟨r, hr, hrop, hlink⟩

theorem Rewardable.not_rewarded (h : Rewardable env s b c) : ¬Rewarded env s b := by
  rintro ⟨hnone, -⟩
  rw [h.entry] at hnone
  cases hnone

-- Nothing waits for the time that a head has not ended.
theorem Represents.head_unrewardable (h : Represents s A) {account : Account}
    {info : AccountInfo} (hinfo : s.accounts.get account = some info) (representative : Account) :
    s.rewardables.get (representative, info.head) = none := by
  obtain ⟨top, htop, -, -, hhash, -, hno, -⟩ := h.head hinfo
  rw [Option.eq_none_iff_forall_ne_some]
  intro reward hget
  obtain ⟨⟨x, hx, -, hkey, d, hd, hf, -⟩, -⟩ := (h.rewardables _ _).mp hget
  obtain rfl := A.hash_inj x hx top htop ((Prod.mk.inj hkey).2.symm.trans hhash.symm)
  exact hno d hd hf

-- The block that ended a time stays as long as the reward for it is claimed.
theorem Represents.rollback_keeps (h : Represents s A) (hb : b ∈ A.blocks) (hc : c ∈ A.blocks)
    (hf : Follows b c) {r : Block} (hr : r ∈ A.blocks) (hop : r.opcode = .reward)
    (hlink : r.link = env.hash b) {t t' : Transaction} (hstore : t.store = s) {x : Block}
    {u : Unit} (hrun : rollbackBlock_ env x t = .ok u t') : c ∈ t'.store.blockSet := by
  obtain ⟨info, previous, hchecks, rfl⟩ := rollbackBlock_ok hrun
  rw [hstore] at hchecks
  have hrem := hchecks.removable h
  have hne : c ≠ x := by
    rintro rfl
    exact hrem.unrewarded b hb hf ⟨r, hr, hop, hlink⟩
  have hafter := hchecks.represents h hrem
  change c ∈ (removedStore env t.store x info previous).blockSet
  rw [hstore, hafter.blockSet]
  exact Finset.mem_erase.mpr ⟨hne, hc⟩

-- Every staking reward can be claimed once, and is not lost.
theorem reachable_rewards {blocks : Set Block} {l : Ledger} (hcf : CollisionFree env blocks)
    (h : Reachable env blocks l) :
    (∀ b ∈ l.store.blockSet, ∀ c ∈ l.store.blockSet, Follows b c → b.hasRepresentative = true →
      rewardAmount env.network b.balance b.timestamp c.timestamp ≠ 0 →
        Xor (Rewardable env l.store b c) (Rewarded env l.store b)) ∧
    (∀ account info representative, l.store.accounts.get account = some info →
      l.store.rewardables.get (representative, info.head) = none) ∧
    (∀ b ∈ l.store.blockSet, ∀ c ∈ l.store.blockSet, ∀ r ∈ l.store.blockSet, Follows b c →
      r.opcode = .reward → r.link = env.hash b → ∀ x fails t,
        rollbackBlock_ env x (.begin_ l fails) = .ok () t → c ∈ t.commit.store.blockSet) := by
  obtain ⟨A, hA⟩ := h.tracks hcf
  have hrep := hA.represents
  rw [hrep.blockSet]
  refine ⟨fun b hb c hc hf hhas hamount => ?_, fun account info representative hinfo => ?_,
    fun b hb c hc r hr hf hop hlink x fails t hrun => ?_⟩
  · rcases hrep.reward_cases hb hc hf hhas hamount with hwaits | hdone
    · exact .inl ⟨hwaits, hwaits.not_rewarded⟩
    · exact .inr ⟨hdone, fun hwaits => hwaits.not_rewarded hdone⟩
  · exact hrep.head_unrewardable hinfo representative
  · exact hrep.rollback_keeps hb hc hf hr hop hlink rfl hrun

-- The reward for the first ten days was claimed; the one for the time of the opened
-- account was not.
theorem sampleLedger_rewards :
    Xor (Rewardable sampleEnv sampleLedger.store (genesisBlock .test) sampleSend)
      (Rewarded sampleEnv sampleLedger.store (genesisBlock .test)) ∧
    Xor (Rewardable sampleEnv sampleLedger.store sampleReceive sampleReturn)
      (Rewarded sampleEnv sampleLedger.store sampleReceive) :=
  have h := (reachable_rewards sample_collisionFree sampleLedger_reachable).1
  ⟨h (genesisBlock .test) (by decide +kernel) sampleSend (by decide +kernel)
      ⟨by decide, by decide⟩ rfl (by decide),
    h sampleReceive (by decide +kernel) sampleReturn (by decide +kernel)
      ⟨by decide, by decide⟩ rfl (by decide)⟩

end Rewards

end Raicoin
