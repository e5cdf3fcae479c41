import Raicoin.Secure.Ledger

namespace Raicoin

open Lib

def genesisPublicKey : RaiNetworks → PublicKey
  | .test => 0xB0311EA55708D6A53C75CDBF88300259C6D018522FE3D4D0A242E431F9E8B6D0#256
  | .beta => 0x4681DC26DA5C34B59D5B320D8053D957D5FC824CE39B239B101892658F180F08#256
  | .live => 0x0EF328F20F9B722A42A5A0873D7F4F05620E8E9D9C5BF0F61403B98022448828#256

def genesisRepresentative : RaiNetworks → Account
  | .test => 0x5389B897F9D4B561A5FF92BD0A57628E8453DEDC2C22179B5C28C9A8A879A604#256
  | .beta => 0x468ECAC53A7DA913C71332301FA974C1C8F808B9C62BF9B792637407E1EFEEED#256
  | .live => 0xBC791A5C868236062AD60F73EA28614A1CEC436B337E82F25FFD1D43F357FD4F#256

def genesisSignature : RaiNetworks → Signature
  | .test =>
    0x67DF01C204603C0715CAA3B1CB01B1CE1ED84E499F3432D85D01B1509DE9C51D4267FEAB2E376903A625B106818B0129FAC19B78C2F5631F8CAB48A7DF502602#512
  | .beta =>
    0xD265320853B6D9533EEB48E857E0C68DF3E32C5CF1B1178236EB2E0453A68B8F927415ACE8FC1E5C16C8DEB7C11DD43EFD86CA3DDB826243400AAF85DCC8D506#512
  | .live =>
    0xACA0AC37F02B2C9D40929EAD69FAE1828E89728896FB06EEA8274852CDA647E9F9AB9D5868DB379253CAD2E0D011BEC4EA4FF2BBC9A369354D4D8154C796920F#512

theorem noExtensions_le : ([] : List UInt8).length ≤ MAX_EXTENSIONS_SIZE := by decide

-- The block that every ledger starts with. It receives from nobody: its link is
-- the public key of its account.
def genesisBlock (network : RaiNetworks) : Block := .tx {
  opcode := .receive
  credit := 512
  counter := 1
  timestamp := UInt64.ofNat (epochTimestamp network)
  height := 0
  account := genesisPublicKey network
  previous := 0
  representative := genesisRepresentative network
  balance := genesisBalance network
  link := genesisPublicKey network
  extensions := []
  signature := genesisSignature network
  extensions_le := noExtensions_le }

-- The tests that the constructor of `rai::Genesis` makes.
theorem genesisBlock_checked (network : RaiNetworks) :
    let block := genesisBlock network
    block.type = .txBlock ∧ block.opcode = .receive ∧ block.credit = 512 ∧ block.counter = 1 ∧
      block.timestamp = epochTimestamp network ∧ block.height = 0 ∧
      block.account = genesisPublicKey network ∧ block.previous = 0 ∧
      block.balance = genesisBalance network ∧ block.link = genesisPublicKey network := by
  cases network <;> decide

-- `Node::InitLedger` on an empty ledger.
def initLedger (env : Env) : TransactionM Unit := do
  let block := genesisBlock env.network
  write (fun fails s => s.blockPut fails (env.hash block) block 0) .BLOCK_PROCESS_LEDGER_BLOCK_PUT
  modify (Transaction.repWeightAdd block.representative block.balance)
  write (fun fails s => s.accountInfoPut fails block.account (.first block.type (env.hash block)))
    .BLOCK_PROCESS_LEDGER_ACCOUNT_INFO_PUT

-- The ledger of a node that was started on an empty database.
def genesisLedger (env : Env) (enableRichList enableDelegatorList : Bool) : Ledger :=
  let l := Ledger.start enableRichList enableDelegatorList .empty
  match initLedger env (.begin_ l StoreCall.never) with
  | .ok _ t => t.commit
  | .error _ t => t.abort l

end Raicoin
