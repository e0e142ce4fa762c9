import Tollgate.Library.Saturating
import Tollgate.Library.Transducer
import Tollgate.Library.OneShot
import Tollgate.Library.Gatekeeper
import Tollgate.Library.Cbor
import Tollgate.Library.Increments
import Tollgate.Library.Periods
import Tollgate.Library.Streak
import Tollgate.Library.Deferred
import Tollgate.Library.Claims
import Tollgate.Library.Coupling
import Tollgate.Library.Ties
import Tollgate.Library.Cddl
import Tollgate.Library.Shell
import Tollgate.Library.Tenancy
import Tollgate.Library.Mailbox
import Tollgate.Library.Decimal
import Tollgate.Library.Json
import Tollgate.Library.Addresses
import Tollgate.Library.Text
import Tollgate.Library.LineLog
import Tollgate.Library.Utf8
import Tollgate.Library.Blocks
import Tollgate.Library.ShellWords
import Tollgate.Protocol.Message
import Tollgate.Protocol.Derived
import Tollgate.Protocol.RoundTrip
import Tollgate.Protocol.Framing
import Tollgate.Protocol.Product
import Tollgate.Protocol.Fingerprint
import Tollgate.Protocol.Schema
import Tollgate.Core.Basic
import Tollgate.Core.Session
import Tollgate.Core.Entry
import Tollgate.Core.AccessAgreement
import Tollgate.Core.MeteringAgreement
import Tollgate.Core.Isolation
import Tollgate.Core.TopUp
import Tollgate.Core.Billing
import Tollgate.Core.ExactBilling
import Tollgate.Core.Ledger
import Tollgate.Core.ActivePeriods
import Tollgate.Core.Delivery
import Tollgate.Core.Settlement
import Tollgate.Core.Recovery
import Tollgate.Core.ElapsedTime
import Tollgate.Core.DriftSuspension
import Tollgate.Core.CostRange
import Tollgate.Core.Budget
import Tollgate.ChargerHost.Driver
import Tollgate.ChargerHost.External
import Tollgate.ChargerHost.Settlement
import Tollgate.ChargerHost.Calls
import Tollgate.ChargerHost.Lockstep
import Tollgate.ChargerHost.TimeCap
import Tollgate.ChargerHost.Journal
import Tollgate.ChargerHost.ExternalJournal
import Tollgate.ChargerHost.ProviderStop
import Tollgate.Net.Consume
import Tollgate.Net.Driver
import Tollgate.Net.Dispatch
import Tollgate.Net.CostAgreement
import Tollgate.Net.Enforcement
import Tollgate.Net.FirewallAgreement
import Tollgate.Net.DecidedAccess
import Tollgate.Net.Reaper
import Tollgate.Net.Wallet
import Tollgate.Net.Exchange
import Tollgate.Net.DeliveredUnits
import Tollgate.Net.DriftAlarm
import Tollgate.Net.Outbox
import Tollgate.Net.RequestOrder
import Tollgate.Net.Account
import Tollgate.Net.BalanceEstimate
import Tollgate.Net.Config
import Tollgate.Net.Conformance
import Tollgate.Net.Admission
import Tollgate.Net.Uci
import Tollgate.Net.UciOps
import Tollgate.Net.Transports
import Tollgate.Net.WifiConnector
import Tollgate.Net.StaleStations
import Tollgate.Net.WifiCleanup
import Tollgate.Net.UpstreamClient
import Tollgate.Net.SessionManager
import Tollgate.Net.Crowsnest
import Tollgate.Net.PaidSessions
import Tollgate.Net.LightningQuotes
import Tollgate.Net.QuoteJanitor
import Tollgate.Net.Mailboxes
import Tollgate.Net.MintCheck
import Tollgate.Net.Renewal
import Tollgate.Net.PaymentAccounting
import Tollgate.Net.Merchant
import Tollgate.Net.HonouredPayments
import Tollgate.Net.HttpBodies
import Tollgate.Net.SessionReceipt
import Tollgate.Net.MintHealth
import Tollgate.Net.FundedOptions
import Tollgate.Net.Allotments
import Tollgate.Net.CounterNames
import Tollgate.Net.NetworkMonitor
import Tollgate.Net.WifiScanner
import Tollgate.Net.Calendar
import Tollgate.Net.Gregorian
import Tollgate.Net.TokenRecovery
import Tollgate.Net.UciCommands
import Tollgate.Library.Words
import Tollgate.Library.Places
import Tollgate.Library.Scripts
import Tollgate.Library.Tallies
import Tollgate.Net.Neighbours
import Tollgate.Net.Nftables
import Tollgate.Net.Policing
import Tollgate.Net.ForwardedTraffic
import Tollgate.Net.GatewayTraffic
import Tollgate.ChargerHost.Harness
import Tollgate.ChargerHost.RunToSettle
import Tollgate.Library.Polling
import Tollgate.Net.MeteringLoop
import Tollgate.Net.MeteredTraffic
import Tollgate.Library.Grouping
import Tollgate.Library.Latches
import Tollgate.Net.AddressHistory
import Tollgate.Net.Control
import Tollgate.Net.Customers
