import Raicoin.Common.Parameters

namespace Raicoin

inductive BlockType where
  | invalid
  | txBlock
  | repBlock
  | adBlock
  deriving DecidableEq, Repr

def BlockType.number : BlockType → Nat
  | .invalid => 0
  | .txBlock => 1
  | .repBlock => 2
  | .adBlock => 3

inductive BlockOpcode where
  | invalid
  | send
  | receive
  | change
  | credit
  | reward
  | destroy
  | bind
  deriving DecidableEq, Repr

def BlockOpcode.number : BlockOpcode → Nat
  | .invalid => 0
  | .send => 1
  | .receive => 2
  | .change => 3
  | .credit => 4
  | .reward => 5
  | .destroy => 6
  | .bind => 7

-- The 64-bit number that stands for "no height".
def INVALID_HEIGHT : Nat := 2 ^ 64 - 1

structure TxBlock where
  opcode : BlockOpcode
  credit : UInt16
  counter : UInt32
  timestamp : UInt64
  height : UInt64
  account : Account
  previous : BlockHash
  representative : Account
  balance : Amount
  link : Uint256
  extensions : List UInt8
  signature : Signature
  extensions_le : extensions.length ≤ MAX_EXTENSIONS_SIZE
  deriving DecidableEq

-- Only a BIND block is written with a chain; the others read back `INVALID`.
structure RepBlock where
  opcode : BlockOpcode
  credit : UInt16
  counter : UInt32
  timestamp : UInt64
  height : UInt64
  account : Account
  previous : BlockHash
  balance : Amount
  link : Uint256
  chain : Chain
  signature : Signature
  chain_eq : opcode ≠ .bind → chain = Chain.INVALID
  deriving DecidableEq

structure AdBlock where
  opcode : BlockOpcode
  credit : UInt16
  counter : UInt32
  timestamp : UInt64
  height : UInt64
  account : Account
  previous : BlockHash
  representative : Account
  balance : Amount
  link : Uint256
  signature : Signature
  deriving DecidableEq

inductive Block where
  | tx (block : TxBlock)
  | rep (block : RepBlock)
  | ad (block : AdBlock)
  deriving DecidableEq

namespace Block

def type : Block → BlockType
  | .tx _ => .txBlock
  | .rep _ => .repBlock
  | .ad _ => .adBlock

def opcode : Block → BlockOpcode
  | .tx b => b.opcode
  | .rep b => b.opcode
  | .ad b => b.opcode

def credit : Block → Nat
  | .tx b => b.credit.toNat
  | .rep b => b.credit.toNat
  | .ad b => b.credit.toNat

def counter : Block → Nat
  | .tx b => b.counter.toNat
  | .rep b => b.counter.toNat
  | .ad b => b.counter.toNat

def timestamp : Block → Nat
  | .tx b => b.timestamp.toNat
  | .rep b => b.timestamp.toNat
  | .ad b => b.timestamp.toNat

def height : Block → Nat
  | .tx b => b.height.toNat
  | .rep b => b.height.toNat
  | .ad b => b.height.toNat

def account : Block → Account
  | .tx b => b.account
  | .rep b => b.account
  | .ad b => b.account

def previous : Block → BlockHash
  | .tx b => b.previous
  | .rep b => b.previous
  | .ad b => b.previous

def balance : Block → Amount
  | .tx b => b.balance
  | .rep b => b.balance
  | .ad b => b.balance

def link : Block → Uint256
  | .tx b => b.link
  | .rep b => b.link
  | .ad b => b.link

def signature : Block → Signature
  | .tx b => b.signature
  | .rep b => b.signature
  | .ad b => b.signature

def representative : Block → Account
  | .tx b => b.representative
  | .rep _ => 0
  | .ad b => b.representative

def hasRepresentative : Block → Bool
  | .tx _ => true
  | .rep _ => false
  | .ad _ => true

def hasChain : Block → Bool
  | .tx _ => false
  | .rep b => b.opcode = .bind
  | .ad _ => false

def chain : Block → Chain
  | .tx _ => Chain.INVALID
  | .rep b => b.chain
  | .ad _ => Chain.INVALID

theorem credit_lt (b : Block) : b.credit < 2 ^ 16 := by
  cases b <;> exact UInt16.toNat_lt _

theorem counter_lt (b : Block) : b.counter < 2 ^ 32 := by
  cases b <;> exact UInt32.toNat_lt _

theorem timestamp_lt (b : Block) : b.timestamp < 2 ^ 64 := by
  cases b <;> exact UInt64.toNat_lt _

theorem height_lt (b : Block) : b.height < 2 ^ 64 := by
  cases b <;> exact UInt64.toNat_lt _

-- What a block's kind decides: only REP blocks have no representative.
theorem hasRepresentative_iff (b : Block) : b.hasRepresentative = true ↔ b.type ≠ .repBlock := by
  cases b <;> simp [hasRepresentative, type]

theorem hasRepresentative_of_type {a b : Block} (h : a.type = b.type) :
    a.hasRepresentative = b.hasRepresentative := by
  cases a <;> cases b <;> simp_all [hasRepresentative, type]

-- The fields that the three kinds of block write first, in this order.
def hashHeader (b : Block) : List (List UInt8) :=
  [bigEndian 1 b.type.number, bigEndian 1 b.opcode.number, bigEndian 2 b.credit,
    bigEndian 4 b.counter, bigEndian 8 b.timestamp, bigEndian 8 b.height,
    bigEndian 32 b.account.toNat, bigEndian 32 b.previous.toNat]

-- `Block::Hash(blake2b_state&)`: everything but the signature.
def hashInput (b : Block) : List UInt8 :=
  b.hashHeader.flatten ++
    match b with
    | .tx b => bigEndian 32 b.representative.toNat ++ bigEndian 16 b.balance.toNat ++
        bigEndian 32 b.link.toNat ++ bigEndian 4 b.extensions.length ++ b.extensions
    | .rep b => bigEndian 16 b.balance.toNat ++ bigEndian 32 b.link.toNat ++
        if b.opcode = .bind then bigEndian 4 b.chain.toNat else []
    | .ad b => bigEndian 32 b.representative.toNat ++ bigEndian 16 b.balance.toNat ++
        bigEndian 32 b.link.toNat

private theorem hashHeader_length (b : Block) : b.hashHeader.flatten.length = 88 := by
  simp [hashHeader]

-- Blocks that are hashed alike have the same place in the same account.
theorem place_of_hashInput {a b : Block} (h : a.hashInput = b.hashInput) :
    a.account = b.account ∧ a.height = b.height := by
  have hheader := (List.append_inj h (by rw [hashHeader_length, hashHeader_length])).1
  have hlen (c : Block) : c.hashHeader.map List.length = [1, 1, 2, 4, 8, 8, 32, 32] := by
    simp [hashHeader]
  have hparts : a.hashHeader = b.hashHeader :=
    List.eq_iff_flatten_eq.mpr ⟨hheader, by rw [hlen, hlen]⟩
  simp only [hashHeader, List.cons.injEq, and_true] at hparts
  obtain ⟨-, -, -, -, -, hheight, haccount, -⟩ := hparts
  constructor
  · exact BitVec.eq_of_toNat_eq (bigEndian_injective 32 _ _ a.account.isLt b.account.isLt haccount)
  · have ha := a.height_lt
    have hb := b.height_lt
    exact bigEndian_injective 8 _ _ (by omega) (by omega) hheight

end Block

-- A visitor has one method for each opcode.
structure BlockVisitor (ρ : Type) where
  send : Block → ρ
  receive : Block → ρ
  change : Block → ρ
  credit : Block → ρ
  reward : Block → ρ
  destroy : Block → ρ
  bind : Block → ρ

-- `Visit` of the three kinds; `invalid` is what follows the `assert(0)` of the last branch.
def Block.visit {ρ : Type} (visitor : BlockVisitor ρ) (invalid : ρ) (b : Block) : ρ :=
  match b, b.opcode with
  | .tx _, .send => visitor.send b
  | .tx _, .receive => visitor.receive b
  | .tx _, .change => visitor.change b
  | .tx _, .credit => visitor.credit b
  | .rep _, .send => visitor.send b
  | .rep _, .receive => visitor.receive b
  | .rep _, .credit => visitor.credit b
  | .rep _, .reward => visitor.reward b
  | .rep _, .bind => visitor.bind b
  | .ad _, .receive => visitor.receive b
  | .ad _, .change => visitor.change b
  | .ad _, .destroy => visitor.destroy b
  | _, _ => invalid

-- What the node takes from outside its own code: the network it is compiled
-- for, BLAKE2b with 32 bytes of output, and Ed25519 (`true` is an error).
structure Env where
  network : RaiNetworks
  blake2b : List UInt8 → BlockHash
  validateMessage : PublicKey → Uint256 → Signature → Bool

namespace Env

variable (env : Env)

def hash (b : Block) : BlockHash := env.blake2b b.hashInput

def checkSignature (b : Block) : Bool := env.validateMessage b.account (env.hash b) b.signature

end Env

end Raicoin
