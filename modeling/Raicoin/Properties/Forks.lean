import Raicoin.Node.BlockProcessor.Forks
import Raicoin.Node.BlockProcessor.Replay
import Raicoin.Node.Message.Codec

-- What is recorded as a fork.
namespace Raicoin

open Lib

structure RealFork (env : Env) (first second : Block) : Prop where
  account : first.account = second.account
  height : first.height = second.height
  hash_ne : env.hash first ≠ env.hash second

-- `ProcessBlockFork_` makes an entry of the two blocks.
def Stores (env : Env) (now : Nat) (fails : ForkCall → Bool) (l : Ledger) (forks : ForkTable)
    (first second : Block) : Prop :=
  forks.get (first.account, first.height) = none ∧
    (processBlockFork_ env now fails l forks first second).forks.get
      (first.account, first.height) = some (first, second)

-- Whoever reports the blocks, only a real fork comes of it.
structure OnlyReal (env : Env) (first second : Block) : Prop where
  message : ∀ input rest,
    ForkMessage.parse env input = .ok ⟨first, second⟩ rest → RealFork env first second
  record : ∀ now fails l forks,
    Stores env now fails l forks first second → RealFork env first second

-- Copies of one block that are signed differently.
def Resigned (first second : Block) : Prop :=
  first.hashInput = second.hashInput ∧ first.signature ≠ second.signature

-- Blocks for one place on which the hash collides.
structure Collide (env : Env) (first second : Block) : Prop where
  account : first.account = second.account
  height : first.height = second.height
  hashInput_ne : first.hashInput ≠ second.hashInput
  hash : env.hash first = env.hash second

theorem Block.forkWith_iff {first second : Block} : first.forkWith second = true ↔
    first.account = second.account ∧ first.height = second.height ∧ first ≠ second := by
  simp [forkWith, and_assoc]

theorem ForkMessage.check_eq_ok {b : ForkMessage} : b.check_ = .ok () ↔
    b.first.account = b.second.account ∧ b.first.height = b.second.height ∧
      b.first ≠ b.second := by
  simp [check_, Except.bind_eq_ok]

section OnlyReal

variable {env : Env} {first second : Block}

theorem Stores.forkWith {now : Nat} {fails : ForkCall → Bool} {l : Ledger} {forks : ForkTable}
    (h : Stores env now fails l forks first second) : first.forkWith second = true := by
  by_contra hnot
  rw [Bool.not_eq_true] at hnot
  obtain ⟨hnone, hsome⟩ := h
  rw [processBlockFork_, if_pos hnot, hnone] at hsome
  cases hsome

-- The signature is all that the hash leaves out.
theorem Block.eq_of_hashInput (hfirst : first.Checked) (hsecond : second.Checked)
    (hinput : first.hashInput = second.hashInput) (hsignature : first.signature = second.signature) :
    first = second := by
  refine deserializeBlockUnverify_inverts.injective hfirst hsecond ?_
  rw [first.serialize_eq, second.serialize_eq, hinput, hsignature]

theorem realFork_of_ne (hfirst : first.Checked) (hsecond : second.Checked)
    (hresigned : ¬Resigned first second) (hcollide : ¬Collide env first second)
    (hplace : first.account = second.account ∧ first.height = second.height ∧ first ≠ second) :
    RealFork env first second := by
  obtain ⟨haccount, hheight, hne⟩ := hplace
  refine ⟨haccount, hheight, fun hhash => ?_⟩
  by_cases hinput : first.hashInput = second.hashInput
  · exact hne (Block.eq_of_hashInput hfirst hsecond hinput
      (not_not.mp fun hsignature => hresigned ⟨hinput, hsignature⟩))
  · exact hcollide ⟨haccount, hheight, hinput, hhash⟩

-- A message with any two different blocks for one place is accepted.
theorem forkMessage_accepted (hfirst : first.Verified env) (hsecond : second.Verified env)
    (hplace : first.account = second.account ∧ first.height = second.height ∧ first ≠ second) :
    ForkMessage.parse env (first.serialize ++ second.serialize) = .ok ⟨first, second⟩ [] := by
  have hbytes : ForkMessage.serialize ⟨first, second⟩ = first.serialize ++ second.serialize := by
    simp [ForkMessage.serialize]
  exact ((ForkMessage.parse_inverts env).exact_iff _ _).mpr
    ⟨⟨hfirst, hsecond, ForkMessage.check_eq_ok.mpr hplace⟩, hbytes.symm⟩

end OnlyReal

-- A fork between blocks that are validly signed is real, unless the blocks are copies with
-- two signatures, or a collision.
theorem real_forks (env : Env) (first second : Block) (hfirst : first.Verified env)
    (hsecond : second.Verified env) :
    OnlyReal env first second ↔ ¬Resigned first second ∧ ¬Collide env first second := by
  constructor
  · intro h
    constructor
    · rintro ⟨hinput, hsignature⟩
      obtain ⟨haccount, hheight⟩ := Block.place_of_hashInput hinput
      have hne : first ≠ second := fun heq => hsignature (heq ▸ rfl)
      have hreal := h.message _ _ (forkMessage_accepted hfirst hsecond ⟨haccount, hheight, hne⟩)
      exact hreal.hash_ne (congrArg env.blake2b hinput)
    · rintro ⟨haccount, hheight, hinput, hhash⟩
      have hne : first ≠ second := fun heq => hinput (heq ▸ rfl)
      have hreal := h.message _ _ (forkMessage_accepted hfirst hsecond ⟨haccount, hheight, hne⟩)
      exact hreal.hash_ne hhash
  · rintro ⟨hresigned, hcollide⟩
    constructor
    · intro input rest hparse
      obtain ⟨hchecked, -⟩ := (ForkMessage.parse_inverts env).sound _ _ _ hparse
      exact realFork_of_ne hfirst.1 hsecond.1 hresigned hcollide
        (ForkMessage.check_eq_ok.mp hchecked.check)
    · intro now fails l forks hstores
      exact realFork_of_ne hfirst.1 hsecond.1 hresigned hcollide
        (Block.forkWith_iff.mp hstores.forkWith)

section Copies

-- The order of the group that Ed25519 signs in.
def GROUP_ORDER : Nat := 2 ^ 252 + 27742317777372353535851937790883648493

-- The second half of a signature, a number in little endian.
def signatureScalar (signature : Signature) : Nat :=
  fromBigEndian ((streamWrite signature).drop 32).reverse

-- `ed25519_sign_open` takes scalars below 2 ^ 253, and takes them modulo the order.
def reducingEnv : Env :=
  { sampleEnv with
    validateMessage := fun _ _ signature => decide (2 ^ 253 ≤ signatureScalar signature ∨
      signatureScalar signature % GROUP_ORDER ≠
        signatureScalar (genesisSignature .test) % GROUP_ORDER) }

def copySignature (signature : Signature) : Signature :=
  let scalar := (bigEndian 32 (signatureScalar signature + GROUP_ORDER)).reverse
  Wire.ofNat (fromBigEndian ((streamWrite signature).take 32 ++ scalar))

-- The genesis block with the order added to the scalar of its signature.
def genesisCopy : Block :=
  match genesisBlock .test with
  | .tx b => .tx { b with signature := copySignature b.signature }
  | b => b

-- What the copy comes to, in one evaluation.
theorem genesisCopy_facts : ((genesisBlock .test).Verified reducingEnv ∧
    genesisCopy.Verified reducingEnv) ∧ Resigned (genesisBlock .test) genesisCopy := by
  refine ⟨⟨⟨⟨?_, ?_, ?_⟩, ?_⟩, ⟨⟨?_, ?_, ?_⟩, ?_⟩⟩, ⟨?_, ?_⟩⟩ <;> decide +kernel

theorem genesisCopy_not_onlyReal : ¬OnlyReal reducingEnv (genesisBlock .test) genesisCopy := by
  intro h
  obtain ⟨⟨hgenesis, hcopy⟩, hresigned⟩ := genesisCopy_facts
  exact ((real_forks reducingEnv _ _ hgenesis hcopy).mp h).1 hresigned

-- A peer needs no key to make the copy. It is accepted as a fork of the genesis block, and
-- counted against the account.
theorem copy_recorded :
    let first := genesisBlock .test
    let l := genesisLedger reducingEnv true true
    let result := processBlockFork_ reducingEnv TEST_EPOCH_TIMESTAMP ForkCall.never l .empty
      first genesisCopy
    first.Verified reducingEnv ∧ genesisCopy.Verified reducingEnv ∧
      ForkMessage.parse reducingEnv (first.serialize ++ genesisCopy.serialize) =
        .ok ⟨first, genesisCopy⟩ [] ∧
      Stores reducingEnv TEST_EPOCH_TIMESTAMP ForkCall.never l .empty first genesisCopy ∧
      (result.ledger.store.accounts.get first.account).map AccountInfo.forks = some 1 ∧
      reducingEnv.hash first = reducingEnv.hash genesisCopy := by
  obtain ⟨hgenesis, hcopy⟩ := genesisCopy_facts.1
  refine ⟨hgenesis, hcopy, ?_, ⟨?_, ?_⟩, ?_, ?_⟩
  · refine forkMessage_accepted hgenesis hcopy ⟨?_, ?_, ?_⟩ <;> decide +kernel
  all_goals decide +kernel

end Copies

end Raicoin
