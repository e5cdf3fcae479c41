import Mathlib.Tactic.Common

namespace Raicoin

-- The codes of `rai::ErrorCode` that the modelled functions return.
inductive ErrorCode where
  | GENERIC
  | MDB_TXN_BEGIN
  | STREAM
  | MAGIC_NUMBER
  | OUTDATED_VERSION
  | UNKNOWN_VERSION
  | INVALID_MESSAGE
  | UNKNOWN_MESSAGE
  | HANDSHAKE_TYPE
  | KEEPLIVE_PEERS
  | KEEPLIVE_REACHABLE_PEERS
  | PUBLISH_NEED_CONFIRM
  | SIGNATURE
  | MESSAGE_CONFIRM_SIGNATURE
  | MESSAGE_QUERY_BY
  | MESSAGE_QUERY_STATUS
  | MESSAGE_QUERY_BLOCK
  | MESSAGE_FORK_ACCOUNT
  | MESSAGE_FORK_HEIGHT
  | MESSAGE_FORK_BLOCK_EQUAL
  | MESSAGE_CONFLICT_BLOCK
  | MESSAGE_CONFLICT_TIMESTAMP
  | MESSAGE_CONFLICT_SIGNATURE
  | LEDGER_BLOCK_GET
  | LEDGER_RECEIVABLE_INFO_GET
  | BLOCK_TYPE
  | BLOCK_OPCODE
  | BLOCK_CREDIT
  | BLOCK_COUNTER
  | BLOCK_CHAIN
  | BLOCK_TIMESTAMP
  | EXTENSIONS_LENGTH
  | ACCOUNT_ACTION_CREDIT
  | ACCOUNT_ACTION_BALANCE
  | ACCOUNT_MAX_CREDIT
  | WALLET_LOCKED
  | WALLET_ACCOUNT_GET
  | WALLET_INFO_PUT
  | WALLET_ACCOUNT_INFO_PUT
  | WALLET_GET
  | WALLET_EXISTS
  | WALLET_ACCOUNT_EXISTS
  | WALLET_TIME_SYNC
  | WALLET_RECEIVABLE_LESS_THAN_CREDIT
  | SEND_AMOUNT
  | RECEIVABLE_AMOUNT
  | BLOCK_PROCESS_SIGNATURE
  | BLOCK_PROCESS_EXISTS
  | BLOCK_PROCESS_GAP_PREVIOUS
  | BLOCK_PROCESS_GAP_RECEIVE_SOURCE
  | BLOCK_PROCESS_GAP_REWARD_SOURCE
  | BLOCK_PROCESS_PREVIOUS
  | BLOCK_PROCESS_OPCODE
  | BLOCK_PROCESS_CREDIT
  | BLOCK_PROCESS_COUNTER
  | BLOCK_PROCESS_TIMESTAMP
  | BLOCK_PROCESS_BALANCE
  | BLOCK_PROCESS_UNRECEIVABLE
  | BLOCK_PROCESS_UNREWARDABLE
  | BLOCK_PROCESS_PRUNED
  | BLOCK_PROCESS_FORK
  | BLOCK_PROCESS_TYPE_MISMATCH
  | BLOCK_PROCESS_REPRESENTATIVE
  | BLOCK_PROCESS_LINK
  | BLOCK_PROCESS_LEDGER_BLOCK_PUT
  | BLOCK_PROCESS_LEDGER_SUCCESSOR_SET
  | BLOCK_PROCESS_LEDGER_BLOCK_GET
  | BLOCK_PROCESS_TYPE_UNKNOWN
  | BLOCK_PROCESS_LEDGER_RECEIVABLE_INFO_PUT
  | BLOCK_PROCESS_LEDGER_RECEIVABLE_INFO_DEL
  | BLOCK_PROCESS_ACCOUNT_EXCEED_TRANSACTIONS
  | BLOCK_PROCESS_LEDGER_REWARDABLE_INFO_PUT
  | BLOCK_PROCESS_LEDGER_REWARDABLE_INFO_DEL
  | BLOCK_PROCESS_LEDGER_ACCOUNT_INFO_PUT
  | BLOCK_PROCESS_LEDGER_INCONSISTENT
  | BLOCK_PROCESS_LEDGER_BLOCK_DEL
  | BLOCK_PROCESS_LEDGER_ROLLBACK_BLOCK_PUT
  | BLOCK_PROCESS_LEDGER_ACCOUNT_INFO_DEL
  | BLOCK_PROCESS_CHAIN
  | BLOCK_PROCESS_BINDING_COUNT
  | BLOCK_PROCESS_LEDGER_BINDING_ENTRY_PUT
  | BLOCK_PROCESS_LEDGER_BINDING_COUNT_PUT
  | BLOCK_PROCESS_LEDGER_BINDING_ENTRY_DEL
  | BLOCK_PROCESS_LEDGER_BINDING_COUNT_DEL
  | BLOCK_PROCESS_ROLLBACK_REWARDED
  | BLOCK_PROCESS_CONFIRM_BLOCK_MISS
  | BLOCK_PROCESS_ROLLBACK_SOURCE_PRUNED
  | BLOCK_PROCESS_ROLLBACK_NOT_EQUAL_TO_HEAD
  | BLOCK_PROCESS_ROLLBACK_RECEIVED
  | BLOCK_PROCESS_ROLLBACK_NON_HEAD
  | BLOCK_PROCESS_ROLLBACK_TAIL
  | BLOCK_PROCESS_ROLLBACK_IGNORE
  | BLOCK_PROCESS_PREPEND_IGNORE
  | BLOCK_PROCESS_UNKNOWN_OPERATION
  | BLOCK_PROCESS_CONTINUE
  | BLOCK_PROCESS_WAIT
  | EXTENSION_TYPE
  | EXTENSION_VALUE
  | EXTENSIONS_BROKEN_STREAM
  | UNEXPECTED
  | APP_PROCESS_GAP_PREVIOUS
  | APP_PROCESS_LEDGER_ACCOUNT_PUT
  | APP_PROCESS_LEDGER_BLOCK_PUT
  | APP_PROCESS_PRUNED
  | APP_PROCESS_PREVIOUS_MISMATCH
  | APP_PROCESS_LEDGER_SUCCESSOR_SET
  | APP_PROCESS_FORK
  | APP_PROCESS_CONFIRMED_FORK
  | APP_PROCESS_EXIST
  | APP_PROCESS_CONFIRMED
  | APP_PROCESS_ROLLBACK_ACCOUNT_MISS
  | APP_PROCESS_ROLLBACK_NON_HEAD
  | APP_PROCESS_ROLLBACK_CONFIRMED
  | APP_PROCESS_ROLLBACK_BLOCK_PUT
  | APP_PROCESS_LEDGER_BLOCK_DEL
  | APP_PROCESS_LEDGER_ACCOUNT_DEL
  | APP_PROCESS_CONFIRM_REQUIRED
  | APP_PROCESS_LEDGER_PUT
  | APP_PROCESS_LEDGER_DEL
  | APP_PROCESS_HALT
  | APP_PROCESS_WAITING
  | APP_PROCESS_UNEXPECTED
  | ALIAS_RESERVED_CHARACTOR_AT
  | ALIAS_RESERVED_CHARACTOR_UNDERSCORE
  | ALIAS_OP_INVALID
  | ALIAS_OP_UNKNOWN
  | ALIAS_MULTI_EXTENSIONS
  | TOKEN_OP_INVALID
  | TOKEN_OP_UNKNOWN
  | TOKEN_TYPE_INVALID
  | TOKEN_TYPE_UNKNOWN
  | TOKEN_NAME_UTF8_CHECK
  | TOKEN_SYMBOL_UTF8_CHECK
  | TOKEN_CAP_SUPPLY_EXCEEDED
  | TOKEN_BASE_URI_UTF8_CHECK
  | TOKEN_URI_UTF8_CHECK
  | TOKEN_CHAIN_INVALID
  | TOKEN_SOURCE_INVALID
  | TOKEN_SOURCE_UNKNOWN
  | TOKEN_SWAP_VALUE_OFFER
  | TOKEN_SWAP_VALUE_WANT
  | TOKEN_SWAP_MIN_OFFER
  | TOKEN_SWAP_MAX_OFFER
  | TOKEN_SWAP_PAIR_EQUAL
  | TOKEN_SWAP_SUB_OP_INVALID
  | TOKEN_SWAP_SUB_OP_UNKNOWN
  | TOKEN_SWAP_MAKER
  | TOKEN_SWAP_SHARE
  | TOKEN_SWAP_ORDER_HEIGHT
  | TOKEN_SWAP_TRADE_HEIGHT
  | TOKEN_SWAP_INQUIRY_HEIGHT
  | TOKEN_SWAP_TAKER
  | TOKEN_SWAP_TAKE_HEIGHT
  | TOKEN_UNMAP_CHAIN
  | TOKEN_UNMAP_TO
  | TOKEN_WRAP_CHAIN
  | TOKEN_WRAP_TO
  | TOKEN_VALUE
  | TOKEN_MINT_TO
  | TOKEN_SEND_TO
  | TOKEN_BLOCK_HEIGHT
  | TOKEN_UNWRAP_CHAIN
  | TOKEN_SWAP_MAIN_ACCOUNT
  | TOKEN_LEDGER_PUT
  | TOKEN_SWAP_ACK_HEIGHT
  | TOKEN_MULTI_EXTENSIONS
  | TOKEN_RECREATE
  | TOKEN_NOT_CREATED
  | TOKEN_TOTAL_SUPPLY_OVERFLOW
  | TOKEN_UNMINTABLE
  | TOKEN_ID_REMINT
  | TOKEN_UNBURNABLE
  | TOKEN_BURN_MORE_THAN_BALANCE
  | TOKEN_ID_NOT_OWNED
  | TOKEN_BALANCE_IS_EMPTY
  | TOKEN_BALANCE_IS_ZERO
  | TOKEN_UNCIRCULABLE
  | TOKEN_SEND_MORE_THAN_BALANCE
  | TOKEN_UNRECEIVABLE
  | TOKEN_RECEIVE_FROM
  | TOKEN_RECEIVE_BLOCK_HEIGHT
  | TOKEN_RECEIVE_VALUE
  | TOKEN_RECEIVE_SOURCE
  | TOKEN_BALANCE_OVERFLOW
  | TOKEN_SWAP_NO_ENOUGH_BALANCE
  | TOKEN_SWAP_MAIN_ACCOUNT_EMPTY
  | TOKEN_SWAP_ORDERS_EXCEEDED
  | TOKEN_SWAP_WITH_SELF
  | TOKEN_SWAP_ORDER_MISS
  | TOKEN_SWAP_INQUIRY_VALUE
  | TOKEN_SWAP_WITH_MAIN_ACCOUNT
  | TOKEN_SWAP_INQUIRY_WAITING_MISS
  | TOKEN_SWAP_TIMEOUT
  | TOKEN_SWAP_STATUS_UNEXPECTED
  | TOKEN_SWAP_TAKE_WAITING_MISS
  | TOKEN_SWAP_TAKE_ACK_VALUE
  | TOKEN_SWAP_ORDER_FINISHED
  | TOKEN_SWAP_MISS
  | TOKEN_SWAP_ACCOUNT_NOT_MAKER
  | TOKEN_SWAP_TAKE_NACK_HEIGHT
  | TOKEN_UNMAP_MORE_THAN_BALANCE
  | TOKEN_WRAP_TO_INVALID_CHAIN
  | TOKEN_WRAP_TO_UNSUPPORTED_CHAIN
  | TOKEN_WRAP_TO_UNKNOWN_CHAIN
  | TOKEN_CROSS_CHAIN_UNEXPECTED
  | TOKEN_CROSS_CHAIN_INVALID_CHAIN
  | TOKEN_CROSS_CHAIN_INVALID_HEIGHT
  | LEDGER_ACCOUNT_INFO_GET
  | ACCOUNT_ACTION_TOO_QUICKLY
  | REWARDER_REWARDABLE_LESS_THAN_CREDIT
  | LEDGER_REWARDABLE_INFO_GET
  | REWARDER_TIMESTAMP
  | REWARDER_AMOUNT
  | ACCOUNT_ZERO_BALANCE
  | REWARD_TO_ACCOUNT
  | ACCOUNT_RESTRICTED
  | EXTENSION_PARSE_UNKNOWN
  | UTF8_CHECK
  | UTF8_CONTROL_CHARACTER
  | BINDING_IGNORED
  | JSON_BLOCK_TYPE
  | JSON_BLOCK_OPCODE
  | JSON_BLOCK_CREDIT
  | JSON_BLOCK_COUNTER
  | JSON_BLOCK_TIMESTAMP
  | JSON_BLOCK_HEIGHT
  | JSON_BLOCK_ACCOUNT
  | JSON_BLOCK_PREVIOUS
  | JSON_BLOCK_REPRESENTATIVE
  | JSON_BLOCK_BALANCE
  | JSON_BLOCK_LINK
  | JSON_BLOCK_EXTENSIONS_LENGTH
  | JSON_BLOCK_EXTENSIONS_EMPTY
  | JSON_BLOCK_EXTENSION_TYPE
  | JSON_BLOCK_EXTENSION_VALUE
  | JSON_BLOCK_SIGNATURE
  | JSON_BLOCK_EXTENSIONS_RAW
  | JSON_BLOCK_EXTENSION_FORMAT
  | JSON_BLOCK_EXTENSION_ALIAS_OP
  | JSON_BLOCK_EXTENSION_ALIAS_OP_VALUE
  | JSON_BLOCK_EXTENSION_TOKEN_OP
  | JSON_BLOCK_EXTENSION_TOKEN_TYPE
  | JSON_BLOCK_EXTENSION_TOKEN_NAME
  | JSON_BLOCK_EXTENSION_TOKEN_SYMBOL
  | JSON_BLOCK_EXTENSION_TOKEN_INIT_SUPPLY
  | JSON_BLOCK_EXTENSION_TOKEN_CAP_SUPPLY
  | JSON_BLOCK_EXTENSION_TOKEN_DECIMALS
  | JSON_BLOCK_EXTENSION_TOKEN_BURNABLE
  | JSON_BLOCK_EXTENSION_TOKEN_MINTABLE
  | JSON_BLOCK_EXTENSION_TOKEN_CIRCULABLE
  | JSON_BLOCK_EXTENSION_TOKEN_BASE_URI
  | JSON_BLOCK_EXTENSION_TOKEN_TO
  | JSON_BLOCK_EXTENSION_TOKEN_VALUE
  | JSON_BLOCK_EXTENSION_TOKEN_URI
  | JSON_BLOCK_EXTENSION_TOKEN_CHAIN
  | JSON_BLOCK_EXTENSION_TOKEN_ADDRESS
  | JSON_BLOCK_EXTENSION_TOKEN_SOURCE
  | JSON_BLOCK_EXTENSION_TOKEN_FROM
  | JSON_BLOCK_EXTENSION_TOKEN_BLOCK_HEIGHT
  | JSON_BLOCK_EXTENSION_TOKEN_TX_HASH
  | JSON_BLOCK_EXTENSION_TOKEN_SWAP_SUBOP
  | JSON_BLOCK_EXTENSION_TOKEN_SWAP_TOKEN_OFFER
  | JSON_BLOCK_EXTENSION_TOKEN_SWAP_TOKEN_WANT
  | JSON_BLOCK_EXTENSION_TOKEN_SWAP_VALUE_OFFER
  | JSON_BLOCK_EXTENSION_TOKEN_SWAP_VALUE_WANT
  | JSON_BLOCK_EXTENSION_TOKEN_SWAP_MIN_OFFER
  | BOOTSTRAP_TYPE
  | BOOTSTRAP_RECEIVE
  | BOOTSTRAP_ACCOUNT
  | BOOTSTRAP_FORK_LENGTH
  | BOOTSTRAP_FORK_BLOCK
  | BOOTSTRAP_SIZE
  | TOKEN_CREATION_DATA_MISS
  | TOKEN_SWAP_SUB_DATA_MISS
  | JSON_BLOCK_EXTENSION_TOKEN_SWAP_MAX_OFFER
  | JSON_BLOCK_EXTENSION_TOKEN_SWAP_TIMEOUT
  | JSON_BLOCK_EXTENSION_TOKEN_SWAP_MAKER
  | JSON_BLOCK_EXTENSION_TOKEN_SWAP_ORDER_HEIGHT
  | JSON_BLOCK_EXTENSION_TOKEN_SWAP_TRADE_HEIGHT
  | JSON_BLOCK_EXTENSION_TOKEN_SWAP_VALUE
  | JSON_BLOCK_EXTENSION_TOKEN_SWAP_SHARE
  | JSON_BLOCK_EXTENSION_TOKEN_SWAP_TAKER
  | JSON_BLOCK_EXTENSION_TOKEN_SWAP_INQUIRY_HEIGHT
  | JSON_BLOCK_EXTENSION_TOKEN_SWAP_SIGNATURE
  | JSON_BLOCK_EXTENSION_TOKEN_SWAP_TAKE_HEIGHT
  | JSON_BLOCK_EXTENSION_TOKEN_TO_CHAIN
  | JSON_BLOCK_EXTENSION_TOKEN_TO_ACCOUNT
  | JSON_BLOCK_EXTENSION_TOKEN_UNWRAP_CHAIN
  | JSON_BLOCK_EXTENSION_TOKEN_SWAP_MAIN_ACCOUNT
  | JSON_BLOCK_EXTENSION_TOKEN_UNMAP_EXTRA_DATA
  | JSON_BLOCK_EXTENSION_TOKEN_SWAP_ACK_HEIGHT
  | JSON_BLOCK_CHAIN_ID
  | JSON_BLOCK_EXTENSION_TOKEN_RECEIVE_INDEX
  deriving DecidableEq, Repr

-- The codes that say that LMDB refused a write.
def ErrorCode.refused : ErrorCode → Bool
  | .BLOCK_PROCESS_LEDGER_BLOCK_PUT => true
  | .BLOCK_PROCESS_LEDGER_SUCCESSOR_SET => true
  | .BLOCK_PROCESS_LEDGER_RECEIVABLE_INFO_PUT => true
  | .BLOCK_PROCESS_LEDGER_RECEIVABLE_INFO_DEL => true
  | .BLOCK_PROCESS_LEDGER_REWARDABLE_INFO_PUT => true
  | .BLOCK_PROCESS_LEDGER_REWARDABLE_INFO_DEL => true
  | .BLOCK_PROCESS_LEDGER_ACCOUNT_INFO_PUT => true
  | .BLOCK_PROCESS_LEDGER_BLOCK_DEL => true
  | .BLOCK_PROCESS_LEDGER_ROLLBACK_BLOCK_PUT => true
  | .BLOCK_PROCESS_LEDGER_ACCOUNT_INFO_DEL => true
  | .BLOCK_PROCESS_LEDGER_BINDING_ENTRY_PUT => true
  | .BLOCK_PROCESS_LEDGER_BINDING_COUNT_PUT => true
  | .BLOCK_PROCESS_LEDGER_BINDING_ENTRY_DEL => true
  | .BLOCK_PROCESS_LEDGER_BINDING_COUNT_DEL => true
  | _ => false

end Raicoin
