import MetaPool.Main
import MetaPool.Json.Fault
import MetaPool.Json.Reader
import MetaPool.Protocol.Script
import MetaPool.Json.Component
import MetaPool.Json.Event
import MetaPool.Json.Role
import MetaPool.Json.State
import MetaPool.Keeper.Document
import MetaPool.Proofs.Value.SharePrice
import MetaPool.Proofs.Value.Solvency
import MetaPool.Proofs.Price.Changes
import MetaPool.Proofs.Price.Lock
import MetaPool.Proofs.Ledger.Spending
import MetaPool.Proofs.Ledger.Conservation
import MetaPool.Proofs.Ledger.Custody
import MetaPool.Proofs.Collection.Values
import MetaPool.Proofs.Log.Replica
import MetaPool.Proofs.Log.Replay
import MetaPool.Proofs.Account.Policy
import MetaPool.Proofs.Capital.Overdraft
import MetaPool.Proofs.Capital.RoundTrip
import MetaPool.Proofs.Capital.Order
import MetaPool.Proofs.Capital.Footprint
import MetaPool.Proofs.Capital.Returned
import MetaPool.Proofs.Capital.Reserve
import MetaPool.Proofs.Step.Transaction
import MetaPool.Proofs.Ledger.Deposit
import MetaPool.Proofs.Capital.Dilution
import MetaPool.Proofs.Deployment.Completeness
import MetaPool.Proofs.Deployment.Wiring
import MetaPool.Proofs.Deployment.Resolution
import MetaPool.Proofs.Price.Readings
import MetaPool.Proofs.Value.Pricing
import MetaPool.Proofs.Ledger.Pause
import MetaPool.Proofs.Value.Reversal
import MetaPool.Proofs.Value.Redemption
import MetaPool.Proofs.Value.TopUp
import MetaPool.Proofs.Capital.Report
import MetaPool.Proofs.Capital.Prediction
import MetaPool.Proofs.Value.Minting
import MetaPool.Proofs.Value.ArbitrageFee
import MetaPool.Proofs.Price.Expiry
import MetaPool.Proofs.Price.Leftovers
import MetaPool.Proofs.Value.Fees
import MetaPool.Proofs.Value.Bootstrap
import MetaPool.Proofs.Keeper.DryRun
import MetaPool.Proofs.Keeper.Moves
import MetaPool.Proofs.Keeper.Served
import MetaPool.Proofs.Keeper.Touch
import MetaPool.Proofs.Keeper.Drain
import MetaPool.Proofs.Keeper.Imbalance
import MetaPool.Proofs.Keeper.Pace
import MetaPool.Proofs.Keeper.ConfigFiles
import MetaPool.Proofs.Ledger.Allowances
import MetaPool.Proofs.Ledger.Holders
import MetaPool.Proofs.Value.Conversion
