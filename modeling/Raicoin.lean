import Raicoin.Lib.Table
import Raicoin.Lib.Numerals
import Raicoin.Lib.Codec
import Raicoin.Lib.Process
import Raicoin.Lib.Retry
import Raicoin.Lib.Sums
import Raicoin.Common.Numbers
import Raicoin.Common.Parameters
import Raicoin.Common.Blocks
import Raicoin.Common.Address
import Raicoin.Common.Stream
import Raicoin.Common.BlockCodec
import Raicoin.Common.Errors
import Raicoin.Common.BlockBuilder
import Raicoin.Secure.Store
import Raicoin.Secure.ByteTables
import Raicoin.Secure.Ledger
import Raicoin.Secure.RepWeights
import Raicoin.Secure.Lists
import Raicoin.Node.BlockProcessor.Append
import Raicoin.Node.BlockProcessor.Rollback
import Raicoin.Node.BlockProcessor.Dynamic
import Raicoin.Secure.Genesis
import Raicoin.Node.BlockProcessor.Run
import Raicoin.Node.BlockProcessor.Replay
import Raicoin.Lattice.Rules
import Raicoin.Lattice.Basic
import Raicoin.Lattice.Change
import Raicoin.Lattice.Heads
import Raicoin.Lattice.Issuance
import Raicoin.Node.BlockProcessor.AppendSpec
import Raicoin.Node.BlockProcessor.RollbackSpec
import Raicoin.Node.BlockProcessor.AppendReady
import Raicoin.Refinement.Tables
import Raicoin.Refinement.Represents
import Raicoin.Refinement.Simulation
import Raicoin.Node.BlockProcessor.Atomicity
import Raicoin.Node.BlockProcessor.ListsSpec
import Raicoin.Refinement.Effect
import Raicoin.Refinement.Reach
import Raicoin.Refinement.Heads
import Raicoin.Refinement.Builders
import Raicoin.Refinement.Processor
import Raicoin.Refinement.Dynamic
import Raicoin.Refinement.Restart
import Raicoin.Refinement.Blocked
import Raicoin.Node.BlockProcessor.Forks
import Raicoin.Node.BlockProcessor.Processor
import Raicoin.Node.Message.Basic
import Raicoin.Node.Message.Codec
import Raicoin.Properties.Messages
import Raicoin.Properties.Forks
import Raicoin.Properties.ForkCounts
import Raicoin.Properties.Builders
import Raicoin.Properties.Chains
import Raicoin.Properties.Claims
import Raicoin.Properties.Weights
import Raicoin.Properties.Inverse
import Raicoin.Properties.Lists
import Raicoin.Properties.Forced
import Raicoin.Properties.Issuance
import Raicoin.Properties.Supply
import Raicoin.Node.Election.Election
import Raicoin.Node.Election.Elections
import Raicoin.Node.Election.Process
import Raicoin.Lib.Quorum
import Raicoin.Node.Election.TallySpec
import Raicoin.Properties.Quorum
import Raicoin.Lib.Machine
import Raicoin.Node.Election.Runs
import Raicoin.Node.Election.StepSpec
import Raicoin.Properties.VotedBlocks
import Raicoin.Lib.Streaks
import Raicoin.Properties.Rounds
import Raicoin.Token.Types
import Raicoin.Token.Ledger
import Raicoin.Lib.Ordered
import Raicoin.Token.Updates
import Raicoin.Token.Effects
import Raicoin.App.Waiting
import Raicoin.Token.CrossChain
import Raicoin.Token.CrossChainSpec
import Raicoin.Properties.Bridge
import Raicoin.Token.Operations
import Raicoin.Token.Handlers
import Raicoin.Token.Swaps
import Raicoin.Token.Process
import Raicoin.Token.Changes
import Raicoin.Token.PlanSpec
import Raicoin.Token.ProcessSpec
import Raicoin.Token.Runs
import Raicoin.Token.SwapBook
import Raicoin.Properties.Orders
import Raicoin.App.Ledger
import Raicoin.Node.ConfirmManager
import Raicoin.Properties.Accounting
import Raicoin.Properties.Confirms
import Raicoin.Node.Bootstrap.Client
import Raicoin.Node.Bootstrap.ReadSpec
import Raicoin.Node.Bootstrap.Runs
import Raicoin.Properties.Sessions
import Raicoin.Lib.Paging
import Raicoin.Node.Bootstrap.Server
import Raicoin.Node.Bootstrap.Exchange
import Raicoin.Node.Bootstrap.Batches
import Raicoin.Properties.Enumeration
import Raicoin.Node.BlockQuery
import Raicoin.Properties.Queries
import Raicoin.Node.Rewarder
import Raicoin.Properties.Rewarder
import Raicoin.Common.Util
import Raicoin.Token.Payload
import Raicoin.Token.PayloadSpec
import Raicoin.Properties.Payloads
import Raicoin.Lib.Lowest
import Raicoin.Properties.Evictions
import Raicoin.Lib.Conversion
import Raicoin.Validator.Serializer
import Raicoin.Validator.Messages
import Raicoin.Validator.SerializerSpec
import Raicoin.Validator.MessagesSpec
import Raicoin.Properties.SignMessages
import Raicoin.Validator.WeightSign
import Raicoin.Properties.Certificates
import Raicoin.Wallet.Actions
import Raicoin.Wallet.ActionsSpec
import Raicoin.Properties.WalletBlocks
import Raicoin.Lib.Chains
import Raicoin.Wallet.Mirror
import Raicoin.Wallet.MirrorSpec
import Raicoin.Properties.Mirror
import Raicoin.Token.Waits
import Raicoin.App.Chains
import Raicoin.Token.WaitsSpec
import Raicoin.Token.App
import Raicoin.Properties.WakeUps
import Raicoin.Validator.Sync
import Raicoin.Validator.SyncSpec
import Raicoin.Validator.Calls
import Raicoin.Properties.ValidatorList
import Raicoin.Properties.ChainInfo
import Raicoin.Lib.Shares
import Raicoin.Validator.TopValidators
import Raicoin.Properties.TopValidators
import Raicoin.Secure.BlockWalk
import Raicoin.Properties.Lookups
import Raicoin.Validator.AccountText
import Raicoin.Properties.AccountTexts
import Raicoin.Properties.Slots
import Raicoin.Properties.VoteOrder
import Raicoin.Wallet.KeyStore
import Raicoin.Properties.KeyStore
import Raicoin.Lib.Scans
import Raicoin.Secure.TokenScans
import Raicoin.Secure.TokenScansSpec
import Raicoin.Properties.TokenScans
import Raicoin.Token.IdBook
import Raicoin.Token.IdMoves
import Raicoin.Token.Lookups
import Raicoin.Properties.TokenIds
import Raicoin.Secure.Websocket
import Raicoin.App.Bootstrap
import Raicoin.Properties.Websocket
import Raicoin.Properties.AppBootstrap
import Raicoin.Node.Subscriptions
import Raicoin.Properties.Announcements
import Raicoin.Common.Extensions
import Raicoin.Properties.Extensions
import Raicoin.Properties.Strings
import Raicoin.Common.Balances
import Raicoin.Properties.Balances
import Raicoin.Secure.AliasIndex
import Raicoin.Alias.Process
import Raicoin.Properties.AliasSearch
import Raicoin.App.Effects
import Raicoin.Properties.AppEffects
import Raicoin.Node.BlockRpc
import Raicoin.Properties.BlockLookups
import Raicoin.Wallet.Automation
import Raicoin.Properties.Automation
import Raicoin.Node.Peers
import Raicoin.Node.PeersSpec
import Raicoin.Properties.Peers
import Raicoin.Lib.Multimap
import Raicoin.Alias.Search
import Raicoin.Properties.AliasAnswers
import Raicoin.Wallet.Requests
import Raicoin.Properties.Requests
import Raicoin.Lib.Ptree
import Raicoin.Common.BlockJson
import Raicoin.Properties.BlockJson
import Raicoin.Node.Syncer
import Raicoin.Properties.Syncer
import Raicoin.Token.OrderSearch
import Raicoin.Properties.OrderSearch
