import Raicoin.Secure.Genesis

namespace Raicoin

-- The opcodes that a kind of block may have.
def BlockType.allows : BlockType → BlockOpcode → Bool
  | .txBlock, .send | .txBlock, .receive | .txBlock, .change | .txBlock, .credit => true
  | .repBlock, .send | .repBlock, .receive | .repBlock, .credit | .repBlock, .reward
  | .repBlock, .bind => true
  | .adBlock, .receive | .adBlock, .change | .adBlock, .destroy => true
  | _, _ => false

def Block.Legal (b : Block) : Prop := b.type.allows b.opcode = true

-- The method of a visitor for an opcode.
def BlockVisitor.method {ρ : Type} (visitor : BlockVisitor ρ) (invalid : ρ) :
    BlockOpcode → Block → ρ
  | .invalid, _ => invalid
  | .send, b => visitor.send b
  | .receive, b => visitor.receive b
  | .change, b => visitor.change b
  | .credit, b => visitor.credit b
  | .reward, b => visitor.reward b
  | .destroy, b => visitor.destroy b
  | .bind, b => visitor.bind b

theorem Block.visit_legal {ρ : Type} (visitor : BlockVisitor ρ) (invalid : ρ) {b : Block}
    (hlegal : b.Legal) : b.visit visitor invalid = visitor.method invalid b.opcode b := by
  unfold Legal at hlegal
  unfold visit
  cases b <;> rename_i b <;> cases hop : b.opcode <;>
    simp_all [type, opcode, BlockType.allows, BlockVisitor.method]

theorem Block.visit_illegal {ρ : Type} (visitor : BlockVisitor ρ) (invalid : ρ) {b : Block}
    (hlegal : ¬b.Legal) : b.visit visitor invalid = invalid := by
  unfold Legal at hlegal
  unfold visit
  cases b <;> rename_i b <;> cases hop : b.opcode <;>
    simp_all [type, opcode, BlockType.allows]

-- Only REP blocks reward and bind, so those blocks and the ones around them in
-- the chain have no representative.
theorem Block.Legal.repBlock {b : Block} (hlegal : b.Legal)
    (hop : b.opcode = .reward ∨ b.opcode = .bind) : b.type = .repBlock := by
  unfold Legal at hlegal
  rcases hop with hop | hop <;> rw [hop] at hlegal <;> cases htype : b.type <;>
    simp_all [BlockType.allows]

theorem Block.representative_of_repBlock {b : Block} (h : b.type = .repBlock) :
    b.hasRepresentative = false ∧ b.representative = 0 := by
  cases b <;> simp_all [Block.type, hasRepresentative, representative]

-- `b` stands right above `p` in one account.
def Follows (p b : Block) : Prop := b.account = p.account ∧ b.height = p.height + 1

theorem Follows.unique_left {p q b : Block} (hp : Follows p b) (hq : Follows q b) :
    p.account = q.account ∧ p.height = q.height := by
  unfold Follows at *
  exact ⟨hp.1.symm.trans hq.1, by omega⟩

theorem Follows.unique_right {p b c : Block} (hb : Follows p b) (hc : Follows p c) :
    b.account = c.account ∧ b.height = c.height := by
  unfold Follows at *
  exact ⟨hb.1.trans hc.1.symm, by omega⟩

theorem Follows.irrefl (b : Block) : ¬Follows b b := by
  unfold Follows
  omega

def CounterSame (p b : Block) : Prop :=
  if SameDay b.timestamp p.timestamp then b.counter = p.counter else b.counter = 0

def CounterIncrease (p b : Block) : Prop :=
  if SameDay b.timestamp p.timestamp then
    b.counter = (p.counter + 1) % 2 ^ 32 ∧ b.counter ≤ b.credit * TRANSACTIONS_PER_CREDIT
  else b.counter = 1

variable (env : Env)

-- What a block may do to the balance of its account.
def BalanceRule (p b : Block) : Prop :=
  match b.opcode with
  | .invalid => False
  | .send | .destroy => b.balance.toNat < p.balance.toNat
  | .receive | .reward => p.balance.toNat < b.balance.toNat
  | .change | .bind => b.balance = p.balance
  | .credit => p.balance.toNat = b.balance.toNat +
      creditPrice env.network b.timestamp * (b.credit - p.credit)

-- `b` may stand on `p`, as far as the chain of the account decides it.
structure Succeeds (p b : Block) : Prop where
  follows : Follows p b
  type : b.type = p.type
  previous : b.previous = env.hash p
  timestamp : p.timestamp ≤ b.timestamp
  credit : if b.opcode = .credit then p.credit < b.credit else b.credit = p.credit
  counter : if b.opcode = .reward then CounterSame p b else CounterIncrease p b
  representative : b.opcode ≠ .change → b.representative = p.representative
  balance : BalanceRule env p b

-- `b` may open an account.
structure Opens (b : Block) : Prop where
  height : b.height = 0
  opcode : b.opcode = .receive ∨ b.opcode = .reward
  previous : b.previous = 0
  credit : b.credit ≠ 0
  counter : b.counter = if b.opcode = .reward then 0 else 1

theorem genesisBlock_legal (network : RaiNetworks) : (genesisBlock network).Legal := by
  cases network <;> rfl

theorem genesisBlock_opens (network : RaiNetworks) : Opens (genesisBlock network) := by
  constructor <;> cases network <;> decide

-- What a RECEIVE or a REWARD takes in; a first block pays for its credit out of it.
def earned (previous : Option Block) (b : Block) : Nat :=
  match previous with
  | some p => b.balance.toNat - p.balance.toNat
  | none => creditPrice env.network b.timestamp * b.credit + b.balance.toNat

-- `c` cannot stay in a ledger without `b`: it stands on `b`, it receives what `b`
-- sends, or it takes the reward for the time that `b` ended.
def Depends (b c : Block) : Prop :=
  Follows b c ∨
  (b.opcode = .send ∧ c.opcode = .receive ∧ c.link = env.hash b) ∨
  (b.height ≠ 0 ∧ c.opcode = .reward ∧ c.link = b.previous)

end Raicoin
