import TimeOff.Ledger
import TimeOff.Races
import TimeOff.Delivery
import TimeOff.Handlers
import TimeOff.Stranded
import TimeOff.RetryAccounting
import TimeOff.SyncNeutral
import TimeOff.SyncRace
import TimeOff.Lib.Connection
import TimeOff.Lib.Script
import TimeOff.Request.Stepwise
import TimeOff.Reservation
import TimeOff.Sync.Stepwise
import TimeOff.Ingestion
import TimeOff.SyncFailure
import TimeOff.Covered
import TimeOff.Reconciliation
import TimeOff.SyncPaths
import TimeOff.SyncOrder
import TimeOff.Request.EmployeeLock
import TimeOff.SharedConnection
import TimeOff.Overdraft
import TimeOff.Correspondence
import TimeOff.Request.Listing
import TimeOff.ReadScope
import TimeOff.Calendar
import TimeOff.HcmRoute
import TimeOff.HcmConservation
import TimeOff.Tick
import TimeOff.Drain
import TimeOff.Backoff
import TimeOff.Audit
import TimeOff.Locked
import TimeOff.Availability
import TimeOff.Linearizable
import TimeOff.Wire
import TimeOff.SyncHistory
import TimeOff.Convergence
import TimeOff.MockHcmServer
