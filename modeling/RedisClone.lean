import RedisClone.Session.Framing
import RedisClone.Session.Modes
import RedisClone.Server.Recovery
import RedisClone.Server.Limits
import RedisClone.Keyspace.Eviction
import RedisClone.Keyspace.Remaining
import RedisClone.Keyspace.Occupied
import RedisClone.Keyspace.Commute
import RedisClone.Hub.History
import RedisClone.Saves.Order
import RedisClone.Saves.Files
import RedisClone.Server.Window
import RedisClone.Writes.Order
import RedisClone.Database.Range
import RedisClone.Database.GlobLanguage
import RedisClone.Keyspace.WrongType
import RedisClone.Keyspace.Deadline
import RedisClone.Keyspace.Counter
import RedisClone.Keyspace.Count
import RedisClone.Keyspace.Views
import RedisClone.Server.Expiry
import RedisClone.Server.Restart
import RedisClone.Keyspace.Loading
import RedisClone.Server.AnyLog
import RedisClone.Traffic.Deque
import RedisClone.Traffic.Register
import RedisClone.Traffic.Isolation
import RedisClone.Traffic.Deadline
import RedisClone.Traffic.Tickets
import RedisClone.Traffic.Leaderboard
import RedisClone.Traffic.Pool
import RedisClone.Machine.PowerLoss
import RedisClone.Machine.Snapshots
import RedisClone.Server.Conversation
import RedisClone.Server.AcceptLoop
import RedisClone.Server.Pushes
import RedisClone.Lib.Cells
import RedisClone.Traffic.Record
import RedisClone.Traffic.Table
