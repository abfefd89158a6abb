import CouncilLedger.Accounts
import CouncilLedger.Accounts.Json
import CouncilLedger.Address
import CouncilLedger.Amount
import CouncilLedger.Archive
import CouncilLedger.Ballot
import CouncilLedger.Block
import CouncilLedger.Block.Json
import CouncilLedger.BlockKey
import CouncilLedger.BlockLog
import CouncilLedger.Chain
import CouncilLedger.Checkpoint
import CouncilLedger.Command
import CouncilLedger.Config
import CouncilLedger.Config.File
import CouncilLedger.Config.Json
import CouncilLedger.Config.Toml
import CouncilLedger.Council
import CouncilLedger.Council.Json
import CouncilLedger.DataDir
import CouncilLedger.Delegation
import CouncilLedger.Digest
import CouncilLedger.Electorate
import CouncilLedger.Encoding
import CouncilLedger.FormatFault
import CouncilLedger.Http.Api
import CouncilLedger.Http.MediaType
import CouncilLedger.Http.Message
import CouncilLedger.Http.Route
import CouncilLedger.Json.Basic
import CouncilLedger.Json.Numeral
import CouncilLedger.Json.Printer
import CouncilLedger.Json.Reader
import CouncilLedger.Json.Record
import CouncilLedger.Main
import CouncilLedger.Node
import CouncilLedger.Node.Recovery
import CouncilLedger.Proofs.Archive
import CouncilLedger.Proofs.Refusals
import CouncilLedger.Proofs.Conservation
import CouncilLedger.Proofs.Council
import CouncilLedger.Proofs.Digest
import CouncilLedger.Proofs.Durability
import CouncilLedger.Proofs.History
import CouncilLedger.Proofs.Json.Layout
import CouncilLedger.Proofs.Json.Records
import CouncilLedger.Proofs.Json.Scalars
import CouncilLedger.Proofs.Ledger
import CouncilLedger.Proofs.Outcome
import CouncilLedger.Proofs.Proposals
import CouncilLedger.Proofs.Quorum
import CouncilLedger.Proofs.Deadline
import CouncilLedger.Proofs.Recovery
import CouncilLedger.Proofs.Run
import CouncilLedger.Proofs.SortedMap
import CouncilLedger.Proofs.Storage
import CouncilLedger.Proofs.Voting
import CouncilLedger.Proposal.Basic
import CouncilLedger.Proposal.Draft
import CouncilLedger.Proposal.Json
import CouncilLedger.Query
import CouncilLedger.Query.Json
import CouncilLedger.Rejection
import CouncilLedger.Sha256
import CouncilLedger.SortedMap
import CouncilLedger.Standing
import CouncilLedger.Text.Classes
import CouncilLedger.Text.Digits
import CouncilLedger.Text.Hex
import CouncilLedger.Text.Quoted
import CouncilLedger.Toml.Numeral
import CouncilLedger.Toml.Printer
import CouncilLedger.Toml.Reader
import CouncilLedger.Toml.Tables
import CouncilLedger.Toml.Text
import CouncilLedger.Toml.Value
import CouncilLedger.Transaction
import CouncilLedger.Proofs.Treasury
import CouncilLedger.Proofs.Amount
import CouncilLedger.Proofs.Delegations
import CouncilLedger.Proofs.Electorate
import CouncilLedger.Proofs.Reuse
import CouncilLedger.Proofs.Decision
import CouncilLedger.Proofs.Lapse
import CouncilLedger.Proofs.Names
import CouncilLedger.Proofs.Closing
import CouncilLedger.Proofs.Castable
import CouncilLedger.Proofs.Lending
import CouncilLedger.Proofs.Mirror
import CouncilLedger.Proofs.Json.Extension
import CouncilLedger.Proofs.Repair
import CouncilLedger.Proofs.Torn
import CouncilLedger.Proofs.FailedStart
import CouncilLedger.Proofs.Encoding
import CouncilLedger.Proofs.Catalogue
import CouncilLedger.Proofs.LongestPrefix
import CouncilLedger.Proofs.OtherRules
import CouncilLedger.Proofs.ChangedRules
import CouncilLedger.Proofs.LogRoundTrip
import CouncilLedger.Proofs.Nonces
import CouncilLedger.Proofs.Requests
import CouncilLedger.Proofs.Addresses
import CouncilLedger.Proofs.FurtherVotes
import CouncilLedger.Proofs.Writes
import CouncilLedger.Proofs.Eligibility
import CouncilLedger.Proofs.VotingPower
import CouncilLedger.Proofs.YesVotes
import CouncilLedger.Proofs.OtherAccounts
import CouncilLedger.Proofs.Lockstep
import CouncilLedger.Proofs.Terms
import CouncilLedger.Proofs.Lookup
import CouncilLedger.Proofs.FirstBlock
import CouncilLedger.Proofs.ConfigText
