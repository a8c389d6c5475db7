import Presale.Lib.Checked
import Presale.Lib.Custody
import Presale.Lib.Loop
import Presale.Lib.Runs
import Presale.Lib.Schedule
import Presale.Lib.Share
import Presale.Program.State
import Presale.Program.Ledger
import Presale.Program.Contexts
import Presale.Program.Admin
import Presale.Program.Investor
import Presale.Program.Staking
import Presale.Program.Machine
import Presale.Program.Script
import Presale.Effects.Transfer
import Presale.Effects.Investor
import Presale.Effects.Admin
import Presale.Effects.Staking
import Presale.Steps.Frame
import Presale.Steps.Sale
import Presale.Steps.Pool
import Presale.Sale.Walk
import Presale.Sale.Books
import Presale.Sale.Flows
import Presale.Sale.Ledger
import Presale.Sale.Vault
import Presale.Sale.Outcome
import Presale.Sale.Isolation
import Presale.Sale.Lock
import Presale.Sale.Stages
import Presale.Sale.Vesting
import Presale.Sale.Unsold
import Presale.Stake.Books
import Presale.Stake.Rewards
import Presale.Stake.Earned
import Presale.Stake.Principal
import Presale.Stake.Emission
import Presale.Lib.Price
import Presale.Sale.Charges
import Presale.Stake.ProRata
import Presale.Steps.Supply
import Presale.Stake.Commute
import Presale.Stake.Isolation
import Presale.Stake.Overflow
import Presale.Stake.Updates
import Presale.Sale.Order
import Presale.Sale.Purchase
import Presale.Sale.Claims
import Presale.Effects.Log
import Presale.Lib.EventLog
import Presale.Lib.Footprint
import Presale.System.Journal
import Presale.Lib.Tokens
import Presale.Effects.Tokens
import Presale.Effects.Access
import Presale.System.Totals
import Presale.System.Supply
import Presale.System.Authority
import Presale.System.Schedules
import Presale.Sale.Payout
import Presale.Lib.Order
import Presale.System.Ranges
import Presale.System.Lifecycle
import Presale.Stake.Exit
import Presale.Stake.Moment
import Presale.Lib.Decimal
import Presale.Client.Format
import Presale.System.Store
import Presale.Sale.Mint
import Presale.Lib.Derive
import Presale.Client.Pdas
import Presale.Lib.Renaming
import Presale.Effects.Renaming
import Presale.System.Symmetry
