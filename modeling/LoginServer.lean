import LoginServer.Library.Runs
import LoginServer.Library.Bytes
import LoginServer.Library.Blocks
import LoginServer.Library.Format
import LoginServer.Library.Faults
import LoginServer.Library.States
import LoginServer.Library.Lines
import LoginServer.Library.Literals
import LoginServer.Library.Decimals
import LoginServer.Library.Search
import LoginServer.Library.Inserts
import LoginServer.Library.Residues
import LoginServer.Scheduler
import LoginServer.SchedulerSteps
import LoginServer.SchedulerOnTime
import LoginServer.SchedulerWaits
import LoginServer.SchedulerOwners
import LoginServer.SchedulerEvents
import LoginServer.Dispatcher
import LoginServer.DispatcherQueue
import LoginServer.Feed
import LoginServer.FeedOrder
import LoginServer.Connection
import LoginServer.ConnectionSteps
import LoginServer.ConnectionRelease
import LoginServer.ConnectionClosing
import LoginServer.ConnectionOperations
import LoginServer.WriteSide
import LoginServer.MessagePool
import LoginServer.MessagePoolSteps
import LoginServer.MessagePoolOwners
import LoginServer.MessagePoolFraming
import LoginServer.MessagePoolOrder
import LoginServer.MessagePoolQueues
import LoginServer.Library.Locks
import LoginServer.Threads
import LoginServer.ThreadsOrder
import LoginServer.ThreadsQueues
import LoginServer.ThreadsReplies
import LoginServer.ThreadsGuards
import LoginServer.ThreadsRoles
import LoginServer.ThreadsUses
import LoginServer.ThreadsCloseOrder
import LoginServer.ThreadsProtocols
import LoginServer.ThreadsProgress
import LoginServer.LoginTask
import LoginServer.NetworkMessage
import LoginServer.Peek
import LoginServer.Tools
import LoginServer.Xtea
import LoginServer.Protocol
import LoginServer.Receive
import LoginServer.ReceiveBounds
import LoginServer.LoginPacket
import LoginServer.OwnBytes
import LoginServer.Written
import LoginServer.OutputBuffer
import LoginServer.Framing
import LoginServer.Account
import LoginServer.Encryption
import LoginServer.EncryptionModes
import LoginServer.Database
import LoginServer.DatabaseOutage
import LoginServer.EscapeBlob
import LoginServer.LoginBlock
import LoginServer.Tables
import LoginServer.Io
import LoginServer.Delegate
import LoginServer.Authorisation
import LoginServer.Lockout
import LoginServer.CharacterList
import LoginServer.ServicePort
import LoginServer.ServicePortRestart
import LoginServer.ConnectBlock
import LoginServer.ConnectRate
import LoginServer.Library.Transactions
import LoginServer.Premium
import LoginServer.PremiumAtomic
import LoginServer.Library.Ownership
import LoginServer.Workers
import LoginServer.WorkersTasks
import LoginServer.WorkersShutdown
import LoginServer.Library.Drains
import LoginServer.Shutdown
import LoginServer.ShutdownTasks
import LoginServer.ConnectionSocket
import LoginServer.MessagePoolStop
import LoginServer.XteaLoop
import LoginServer.Library.RunningSums
import LoginServer.Adler
import LoginServer.ReadBack
import LoginServer.ChecksumTest
import LoginServer.ChecksumDistance
import LoginServer.RsaFailure
import LoginServer.LoginRequest
import LoginServer.LoginReply
import LoginServer.LoginSession
import LoginServer.PremiumDays
import LoginServer.PacketRate
import LoginServer.ConnectBlockPhase
import LoginServer.SlowConnection
import LoginServer.Worlds
import LoginServer.WorldsWire
import LoginServer.Rsa
import LoginServer.DbInsert
import LoginServer.CharacterKeys
import LoginServer.BanFields
import LoginServer.AddressBans
import LoginServer.LoginEffects
import LoginServer.LoginRetries
import LoginServer.ConfigManager
import LoginServer.Motd
import LoginServer.MotdReload
import LoginServer.ConnectionErrors
import LoginServer.ConfigDefaults
import LoginServer.Arguments
import LoginServer.Library.Cuts
import LoginServer.Explode
import LoginServer.ArgumentValues
import LoginServer.Dsn
import LoginServer.Services
import LoginServer.Lifetime
