import EpollChat.Lib.Machine
import EpollChat.Lib.Threads
import EpollChat.Lib.Condition
import EpollChat.Lib.Agenda
import EpollChat.Lib.Shards
import EpollChat.Lib.Slice
import EpollChat.Lib.Ring
import EpollChat.Lib.Seek
import EpollChat.Lib.Frames
import EpollChat.Lib.Chain
import EpollChat.Lib.Tiling
import EpollChat.Lib.Paging
import EpollChat.Text
import EpollChat.Wire.Varint
import EpollChat.Wire.Message
import EpollChat.Wire.Json
import EpollChat.Wire.Codec
import EpollChat.Wire.Variables
import EpollChat.Wire.Chat
import EpollChat.Buffer.Send
import EpollChat.Buffer.Recv
import EpollChat.Buffer.Calls
import EpollChat.Conn.SendQueue
import EpollChat.Conn.Output
import EpollChat.Conn.Input
import EpollChat.Conn.Readiness
import EpollChat.Conn.Client
import EpollChat.Pending.Redis
import EpollChat.Pending.Tasks
import EpollChat.Pending.ConnectionPool
import EpollChat.Pending.Pools
import EpollChat.Pending.PoolWaits
import EpollChat.Ids.Snowflake
import EpollChat.Pool.PageCache
import EpollChat.Pool.CentralCache
import EpollChat.Pool.MemoryPool
import EpollChat.Pool.Calls
import EpollChat.Pool.PageCalls
import EpollChat.Pool.ThreadCache
import EpollChat.Server.Registry
import EpollChat.Server.Sessions
import EpollChat.Server.Threads
import EpollChat.Server.ChatLog
import EpollChat.Server.ThreadPool
import EpollChat.Server.Workers
import EpollChat.Server.Admission
import EpollChat.Server.Friends
import EpollChat.Server.FriendCache
import EpollChat.Server.History
import EpollChat.Server.Conversation
import EpollChat.Server.ChatStore
import EpollChat.Server.Requests
import EpollChat.Server.Shards
import EpollChat.Server.Acceptor
import EpollChat.Proof.Wire.Varint
import EpollChat.Proof.Wire.Members
import EpollChat.Proof.Wire.Decode
import EpollChat.Proof.Wire.FieldOrder
import EpollChat.Proof.Wire.Terminates
import EpollChat.Proof.Wire.Render
import EpollChat.Proof.Wire.ChatBody
import EpollChat.Proof.Wire.ChatRoundTrip
import EpollChat.Proof.Wire.Login
import EpollChat.Proof.Wire.Enriched
import EpollChat.Proof.Wire.Arrays
import EpollChat.Proof.Wire.Canonical
import EpollChat.Proof.Wire.Unambiguous
import EpollChat.Proof.Buffer.Send
import EpollChat.Proof.Buffer.Recv
import EpollChat.Proof.Buffer.RecvQueue
import EpollChat.Proof.Buffer.SendQueue
import EpollChat.Proof.Conn.SendQueue
import EpollChat.Proof.Conn.Stream
import EpollChat.Proof.Conn.WakeUp
import EpollChat.Proof.Conn.Framing
import EpollChat.Proof.Conn.Backpressure
import EpollChat.Proof.Conn.AcceptRace
import EpollChat.Proof.Conn.Parking
import EpollChat.Proof.Conn.StreamEnd
import EpollChat.Proof.Conn.Readiness
import EpollChat.Proof.Conn.Client
import EpollChat.Proof.Pending.Tables
import EpollChat.Proof.Pending.Kept
import EpollChat.Proof.Pending.Gone
import EpollChat.Proof.Pending.NoResend
import EpollChat.Proof.Pending.NoTrace
import EpollChat.Proof.Pending.Retries
import EpollChat.Proof.Pending.Reschedule
import EpollChat.Proof.Pending.Starvation
import EpollChat.Proof.Pending.Logins
import EpollChat.Proof.Pending.RoundTrip
import EpollChat.Proof.Pending.ClientAck
import EpollChat.Proof.Pending.ConnectionPool
import EpollChat.Proof.Pending.Pools
import EpollChat.Proof.Pending.PoolWaits
import EpollChat.Proof.Ids.Snowflake
import EpollChat.Proof.Pool.Carve
import EpollChat.Proof.Pool.Blocks
import EpollChat.Proof.Pool.Safety
import EpollChat.Proof.Pool.Contents
import EpollChat.Proof.Pool.Unlink
import EpollChat.Proof.Pool.Spans
import EpollChat.Proof.Pool.GiveBack
import EpollChat.Proof.Pool.Detached
import EpollChat.Proof.Pool.Trackers
import EpollChat.Proof.Pool.FreeSpans
import EpollChat.Proof.Pool.Conservation
import EpollChat.Proof.Pool.NullSpans
import EpollChat.Proof.Pool.ThreadCache
import EpollChat.Proof.Pool.ReturnBatch
import EpollChat.Proof.Server.Sessions
import EpollChat.Proof.Server.Threads
import EpollChat.Proof.Server.SendOwner
import EpollChat.Proof.Server.DisconnectOnce
import EpollChat.Proof.Server.LoginRace
import EpollChat.Proof.Server.ChatLog
import EpollChat.Proof.Server.ThreadPool
import EpollChat.Proof.Server.Workers
import EpollChat.Proof.Server.Admission
import EpollChat.Proof.Server.Friends
import EpollChat.Proof.Server.FriendCache
import EpollChat.Proof.Server.History
import EpollChat.Proof.Server.SessionId
import EpollChat.Proof.Server.ChatStore
import EpollChat.Proof.Server.Conversation
import EpollChat.Proof.Server.Requests
import EpollChat.Proof.Server.Accounts
import EpollChat.Proof.Server.WorkEnds
import EpollChat.Proof.Server.Shards
import EpollChat.Proof.Server.Acceptor
