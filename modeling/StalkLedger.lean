import StalkLedger.Wire.Event
import StalkLedger.Vault.Call
import StalkLedger.Proofs.Backing
import StalkLedger.Proofs.FloodCourse
import StalkLedger.Proofs.Balance
import StalkLedger.Proofs.Solvency
import StalkLedger.Proofs.History
import StalkLedger.Proofs.Claimable
import StalkLedger.Proofs.Exit
import StalkLedger.Proofs.Unreachable
import StalkLedger.Proofs.Isolation
import StalkLedger.Proofs.Placement
import StalkLedger.Proofs.Record
import StalkLedger.Proofs.RecordFlow
import StalkLedger.Proofs.RecordRun
import StalkLedger.Proofs.WrittenLedger
import StalkLedger.Proofs.Dewhitelisting
import StalkLedger.Proofs.Commutation
import StalkLedger.Proofs.Exactness
import StalkLedger.Proofs.Parts
import StalkLedger.Proofs.Dispatch
import StalkLedger.Proofs.Conversion
import StalkLedger.Proofs.Location
import StalkLedger.Proofs.Parcels
import StalkLedger.Proofs.Transfer
import StalkLedger.Proofs.SelfTransfer
import StalkLedger.Proofs.Dilution
import StalkLedger.Proofs.Reversal
import StalkLedger.Proofs.Absorption
import StalkLedger.Proofs.Planting
import StalkLedger.Proofs.Ticks
import StalkLedger.Proofs.Laziness
import StalkLedger.Proofs.Prediction
import StalkLedger.Proofs.Migration
import StalkLedger.Proofs.Reconversion
import StalkLedger.Proofs.Rearrangement
import StalkLedger.Proofs.Apportionment
import StalkLedger.Proofs.Proportion
import StalkLedger.Proofs.EventCodec
import StalkLedger.Proofs.Tiling
import StalkLedger.Proofs.Backdating
