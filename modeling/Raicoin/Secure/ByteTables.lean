import Raicoin.Common.BlockCodec
import Raicoin.Secure.Store

-- The tables that hold blocks, as LMDB holds them: bytes under bytes.
namespace Raicoin

open Lib

structure ByteTables where
  blocks : Table (List UInt8) (List UInt8)
  forks : Table (List UInt8) (List UInt8)

namespace ByteTables

variable (t : ByteTables)

def blockPut (hash : BlockHash) (block : Block) (successor : BlockHash) : ByteTables :=
  { t with blocks := t.blocks.put (streamWrite hash) (block.serialize ++ streamWrite successor) }

def readStored : StreamM StoredBlock := do
  let block ← deserializeBlockUnverify
  let successor ← streamRead
  return ⟨block, successor⟩

-- A reader that is given the bytes of a value; the bytes it leaves are not looked at.
def parse {α : Type} (reader : StreamM α) (bytes : List UInt8) : Option α :=
  match reader bytes with
  | .ok value _ => some value
  | .error _ _ => none

def blockGet (hash : BlockHash) : Option StoredBlock := do
  let bytes ← t.blocks.get (streamWrite hash)
  parse readStored bytes

-- `BlockSuccessorSet` copies the hash over the last 32 bytes.
def blockSuccessorSet (hash successor : BlockHash) : Option ByteTables := do
  let bytes ← t.blocks.get (streamWrite hash)
  let updated := bytes.take (bytes.length - 32) ++ streamWrite successor
  return { t with blocks := t.blocks.put (streamWrite hash) updated }

def forkKey (account : Account) (height : UInt64) : List UInt8 :=
  streamWrite account ++ streamWrite height

def forkPut (account : Account) (height : UInt64) (first second : Block) : ByteTables :=
  { t with forks := t.forks.put (forkKey account height) (first.serialize ++ second.serialize) }

def readFork : StreamM (Block × Block) := do
  let first ← deserializeBlockUnverify
  let second ← deserializeBlockUnverify
  return (first, second)

def forkGet (account : Account) (height : UInt64) : Option (Block × Block) := do
  let bytes ← t.forks.get (forkKey account height)
  parse readFork bytes

-- Two blocks, or a block and a hash, are stored back to back: the first ends where the
-- second begins.
theorem readStored_inverts : Inverts readStored
    (fun stored => stored.block.serialize ++ streamWrite stored.successor)
    fun stored => stored.block.Checked := by
  refine .congr (?_ : Inverts _ (fun stored : StoredBlock =>
    stored.block.serialize ++ (streamWrite stored.successor ++ [])) _)
    (fun stored _ => by rw [List.append_nil]) fun stored => Iff.rfl
  refine .bind StoredBlock.block deserializeBlockUnverify_inverts (fun _ h => h) fun block hblock => ?_
  refine .bind StoredBlock.successor streamRead_inverts (fun _ _ => trivial) fun successor _ => ?_
  exact .done ⟨⟨hblock, rfl⟩, rfl⟩ fun stored ⟨⟨_, hb⟩, hs⟩ => by rw [← hb, ← hs]

theorem readFork_inverts : Inverts readFork
    (fun fork => fork.1.serialize ++ fork.2.serialize)
    fun fork => fork.1.Checked ∧ fork.2.Checked := by
  refine .congr (?_ : Inverts _ (fun fork : Block × Block =>
    fork.1.serialize ++ (fork.2.serialize ++ [])) _)
    (fun stored _ => by rw [List.append_nil]) fun stored => Iff.rfl
  refine .bind Prod.fst deserializeBlockUnverify_inverts (fun _ h => h.1) fun first hfirst => ?_
  refine .bind Prod.snd deserializeBlockUnverify_inverts (fun _ h => h.1.2) fun second hsecond => ?_
  exact .done ⟨⟨⟨hfirst, hsecond⟩, rfl⟩, rfl⟩ fun fork ⟨⟨_, hf⟩, hs⟩ => by rw [← hf, ← hs]

theorem parse_write {α : Type} {reader : StreamM α} {write : α → List UInt8} {valid : α → Prop}
    (h : Inverts reader write valid) {a : α} (ha : valid a) : parse reader (write a) = some a := by
  rw [parse, (h.exact_iff (write a) a).mpr ⟨ha, rfl⟩]

theorem streamWrite_inj {α : Type} [Wire α] {a b : α} :
    streamWrite a = streamWrite b ↔ a = b :=
  ⟨fun h => streamRead_inverts.injective trivial trivial h, fun h => by rw [h]⟩

theorem forkKey_inj {account other : Account} {height place : UInt64} :
    forkKey account height = forkKey other place ↔ account = other ∧ height = place := by
  constructor
  · intro h
    obtain ⟨haccount, hheight⟩ := List.append_inj h (by simp)
    exact ⟨streamWrite_inj.mp haccount, streamWrite_inj.mp hheight⟩
  · rintro ⟨rfl, rfl⟩
    rfl

theorem blockGet_blockPut {block : Block} (h : block.Checked) (hash successor other : BlockHash) :
    (t.blockPut hash block successor).blockGet other =
      if other = hash then some ⟨block, successor⟩ else t.blockGet other := by
  unfold blockGet blockPut
  simp only [Table.get_put, streamWrite_inj]
  split
  · exact parse_write readStored_inverts (a := ⟨block, successor⟩) h
  · rfl

theorem forkGet_forkPut {first second : Block} (hfirst : first.Checked) (hsecond : second.Checked)
    (account other : Account) (height place : UInt64) :
    (t.forkPut account height first second).forkGet other place =
      if other = account ∧ place = height then some (first, second) else t.forkGet other place := by
  unfold forkGet forkPut
  simp only [Table.get_put, forkKey_inj]
  split
  · exact parse_write readFork_inverts (a := (first, second)) ⟨hfirst, hsecond⟩
  · rfl

-- Only the last 32 bytes change, and they held the successor.
theorem blockSuccessorSet_blockPut (hash : BlockHash) (block : Block)
    (old successor : BlockHash) :
    (t.blockPut hash block old).blockSuccessorSet hash successor =
      some (t.blockPut hash block successor) := by
  have hlength : (streamWrite old).length = 32 := streamWrite_length old
  have hkept : (block.serialize ++ streamWrite old).take
      ((block.serialize ++ streamWrite old).length - 32) = block.serialize := by
    rw [List.length_append, hlength, Nat.add_sub_cancel, List.take_left]
  unfold blockSuccessorSet
  simp only [blockPut, Table.get_put, if_true, Option.bind_eq_bind, Option.bind_some, hkept,
    Option.pure_def, Option.some.injEq, mk.injEq, and_true]
  refine Table.ext_some fun key value => ?_
  simp only [Table.get_put]
  split <;> rfl

end ByteTables

-- A block is read back from its bytes, whatever follows them, and from nothing else. So the
-- tables give back the blocks and the successors that were put there.
theorem block_codec (env : Env) :
    (∀ block suffix, block.Checked → ∃ parsed,
      deserializeBlockUnverify (block.serialize ++ suffix) = .ok parsed suffix ∧
        parsed = block ∧ env.hash parsed = env.hash block) ∧
    (∀ input block rest, deserializeBlockUnverify input = .ok block rest →
      block.Checked ∧ input = block.serialize ++ rest) ∧
    (∀ (t : ByteTables) account height first second, first.Checked → second.Checked →
      ∀ other place, (t.forkPut account height first second).forkGet other place =
        if other = account ∧ place = height then some (first, second)
        else t.forkGet other place) ∧
    (∀ (t : ByteTables) hash block successor, block.Checked →
      ∀ other, (t.blockPut hash block successor).blockGet other =
        if other = hash then some ⟨block, successor⟩ else t.blockGet other) ∧
    (∀ (t : ByteTables) hash block old successor,
      (t.blockPut hash block old).blockSuccessorSet hash successor =
        some (t.blockPut hash block successor)) := by
  refine ⟨fun block suffix h => ⟨block, ?_, rfl, rfl⟩, ?_, ?_, ?_, ?_⟩
  · exact deserializeBlockUnverify_inverts.complete block suffix h
  · exact fun input block rest h => deserializeBlockUnverify_inverts.sound input block rest h
  · exact fun t account height first second hfirst hsecond other place =>
      t.forkGet_forkPut hfirst hsecond account other height place
  · exact fun t hash block successor h other => t.blockGet_blockPut h hash successor other
  · exact fun t hash block old successor => t.blockSuccessorSet_blockPut hash block old successor

end Raicoin
