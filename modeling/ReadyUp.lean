import ReadyUp.Config.Assign
import ReadyUp.Config.Broadcast
import ReadyUp.Config.Codecs
import ReadyUp.Config.Commands
import ReadyUp.Config.Context
import ReadyUp.Config.Delay
import ReadyUp.Config.Effective
import ReadyUp.Config.Fields
import ReadyUp.Config.JsonEdits
import ReadyUp.Config.JsonReaders
import ReadyUp.Config.MapNames
import ReadyUp.Config.Minijson
import ReadyUp.Config.Overrides
import ReadyUp.Config.Reported
import ReadyUp.Config.Resume
import ReadyUp.Config.ResumeReload
import ReadyUp.Config.ResumeValid
import ReadyUp.Config.Rounds
import ReadyUp.Config.Ruleset
import ReadyUp.Config.SeatUpdates
import ReadyUp.Config.Translate
import ReadyUp.Config.UpdateValid
import ReadyUp.Config.Updates
import ReadyUp.Core.HttpRequest
import ReadyUp.Core.HumanRegistry
import ReadyUp.Core.RateBound
import ReadyUp.Core.RateLimiter
import ReadyUp.Fleet.Bridge
import ReadyUp.Fleet.Client
import ReadyUp.Fleet.ClientAck
import ReadyUp.Fleet.DeferredRestore
import ReadyUp.Fleet.Delivery
import ReadyUp.Fleet.Demo
import ReadyUp.Fleet.DemoCopy
import ReadyUp.Fleet.DemoDeletion
import ReadyUp.Fleet.DemoDelivered
import ReadyUp.Fleet.DemoLife
import ReadyUp.Fleet.DemoRestart
import ReadyUp.Fleet.DemoSave
import ReadyUp.Fleet.DemoWindow
import ReadyUp.Fleet.Envelope
import ReadyUp.Fleet.EnvelopeNumbers
import ReadyUp.Fleet.Fence
import ReadyUp.Fleet.Fencing
import ReadyUp.Fleet.JsonBlanks
import ReadyUp.Fleet.JsonPlain
import ReadyUp.Fleet.JsonReader
import ReadyUp.Fleet.JsonRoundTrip
import ReadyUp.Fleet.JsonSyntax
import ReadyUp.Fleet.JsonText
import ReadyUp.Fleet.JsonUnicode
import ReadyUp.Fleet.LiveStream
import ReadyUp.Fleet.Outbox
import ReadyUp.Fleet.PublicAddr
import ReadyUp.Fleet.Redact
import ReadyUp.Fleet.Restart
import ReadyUp.Fleet.RxTracker
import ReadyUp.Fleet.SayLines
import ReadyUp.Fleet.SessionOrder
import ReadyUp.Fleet.Spool
import ReadyUp.Fleet.SpoolCrash
import ReadyUp.Fleet.SpoolFiles
import ReadyUp.Fleet.SpoolLive
import ReadyUp.Fleet.SpoolLog
import ReadyUp.Fleet.SpoolMemory
import ReadyUp.Fleet.SpoolOverflow
import ReadyUp.Fleet.SpoolRun
import ReadyUp.Fleet.Urls
import ReadyUp.License.Calendar
import ReadyUp.License.Grace
import ReadyUp.License.Key
import ReadyUp.License.Standing
import ReadyUp.Match.BackupFiles
import ReadyUp.Match.Books
import ReadyUp.Match.Context
import ReadyUp.Match.Counters
import ReadyUp.Match.CvarSnapshot
import ReadyUp.Match.DamageTally
import ReadyUp.Match.DoubleEntry
import ReadyUp.Match.EntryDuels
import ReadyUp.Match.ForfeitTimer
import ReadyUp.Match.HealthLost
import ReadyUp.Match.LocalBackup
import ReadyUp.Match.MapDecision
import ReadyUp.Match.PlayerLedger
import ReadyUp.Match.Playout
import ReadyUp.Match.PostMap
import ReadyUp.Match.Progress
import ReadyUp.Match.ReadyGate
import ReadyUp.Match.Resume
import ReadyUp.Match.RoundBalance
import ReadyUp.Match.ScoreAtRound
import ReadyUp.Match.ScoreLedger
import ReadyUp.Match.Series
import ReadyUp.Match.SeriesScore
import ReadyUp.Match.Server
import ReadyUp.Match.SideTracking
import ReadyUp.Match.Simulation
import ReadyUp.Match.Stats
import ReadyUp.Match.StatsRewind
import ReadyUp.Match.StatsText
import ReadyUp.Match.StopVote
import ReadyUp.Match.TieRules
import ReadyUp.Match.Votes
import ReadyUp.Plugins.ConsoleLines
import ReadyUp.Plugins.CoreCommands
import ReadyUp.Plugins.CvarQueries
import ReadyUp.Plugins.Host
import ReadyUp.Plugins.HostQueues
import ReadyUp.Plugins.Lifecycle
import ReadyUp.Plugins.RemoteCommands
import ReadyUp.Plugins.Router
import ReadyUp.Plugins.Subscriptions
import ReadyUp.Status.Feed
import ReadyUp.Status.Hub
import ReadyUp.Status.Json
import ReadyUp.Status.JsonStore
import ReadyUp.Status.JsonSyntax
import ReadyUp.Status.JsonText
import ReadyUp.Status.MergePatch
import ReadyUp.Status.MergeCarry
import ReadyUp.Status.Resume
import ReadyUp.Status.Ring
import ReadyUp.Status.Silent
import ReadyUp.Status.Streams
import ReadyUp.Status.Wire
import ReadyUp.Support.Assoc
import ReadyUp.Support.Binary64
import ReadyUp.Support.Checks
import ReadyUp.Support.Console
import ReadyUp.Support.Decimal
import ReadyUp.Support.DigitOrder
import ReadyUp.Support.Files
import ReadyUp.Support.FirstMax
import ReadyUp.Support.FloatText
import ReadyUp.Support.HexText
import ReadyUp.Support.JsonGrammar
import ReadyUp.Support.JsonLayout
import ReadyUp.Support.JsonNumbers
import ReadyUp.Support.JsonReading
import ReadyUp.Support.JsonScan
import ReadyUp.Support.JsonStrings
import ReadyUp.Support.JsonTree
import ReadyUp.Support.JsonUnicode
import ReadyUp.Support.Marks
import ReadyUp.Support.NumberText
import ReadyUp.Support.Numbered
import ReadyUp.Support.OrderedMap
import ReadyUp.Support.Runs
import ReadyUp.Support.Search
import ReadyUp.Support.Since
import ReadyUp.Support.Strto
import ReadyUp.Support.Table
import ReadyUp.Support.TableTotal
import ReadyUp.Support.Utf8
import ReadyUp.Support.WholeDoubles
import ReadyUp.Support.Words
import ReadyUp.Tv.Applier
import ReadyUp.Tv.Settings
import ReadyUp.Plugins.EditDistance
import ReadyUp.Match.TeamNames
import ReadyUp.Practice.Scenario
import ReadyUp.Practice.Timeline
import ReadyUp.Mapvote.Ballot
import ReadyUp.Config.Base64
import ReadyUp.Fleet.Sha256
import ReadyUp.Config.BroadcastProfile
import ReadyUp.Fleet.PayloadText
import ReadyUp.Tv.MatchProfile
import ReadyUp.Tv.ActiveMatch
import ReadyUp.Match.Pauses
import ReadyUp.Match.PauseHistory
import ReadyUp.Mapvote.Rules
import ReadyUp.Mapvote.Plugin
import ReadyUp.Mapvote.History
import ReadyUp.Mapvote.Votes
