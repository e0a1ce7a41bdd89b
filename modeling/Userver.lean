import Userver.Lib.DigitString
import Userver.Lib.Rounding
import Userver.Decimal64.Basic
import Userver.Decimal64.Parse
import Userver.Decimal64.Format
import Userver.Decimal64.Scan
import Userver.Decimal64.Read
import Userver.Decimal64.RoundTrip
import Userver.Decimal64.Grammar
import Userver.Decimal64.Strict
import Userver.Postgres.Numeric
import Userver.Dump.Integer
import Userver.Dump.Types
import Userver.Dump.RoundTrip
import Userver.Lib.Loop
import Userver.Tskv.Encode
import Userver.Tskv.Parser
import Userver.Tskv.RoundTrip
import Userver.Digest.Parser
import Userver.Digest.RoundTrip
import Userver.Digest.Checker
import Userver.Redis.ShardSubscription
import Userver.Redis.SubscriptionDriver
import Userver.Lib.KeyMap
import Userver.Http.HandlerMethodIndex
import Userver.Http.PathIndex
import Userver.Http.ApiKey
import Userver.Io.BufferedReader
import Userver.Http.HeaderMap
import Userver.Http.RequestHeaders
import Userver.YamlConfig.Access
import Userver.Cache.Config
import Userver.Cache.UpdateTrait
import Userver.DistLock.Locker
import Userver.Lib.Probe
import Userver.Http.HeaderMap.Hash
import Userver.Http.HeaderMap.Map
import Userver.Http.HeaderMap.Slots
import Userver.Http.HeaderMap.Api
import Userver.Http.HeaderMap.Insert
import Userver.Http.HeaderMap.Flood
import Userver.Lib.CType
import Userver.Http.Url
import Userver.Lib.Machine
import Userver.Lib.LruList
import Userver.Cache.Lru
import Userver.Cache.Slru
import Userver.Postgres.Range
import Userver.Postgres.NumericText
import Userver.Utils.TimeOfDay
import Userver.Lib.OrdMap
import Userver.Redis.ClusterSlots
import Userver.Http.MultipartFormData.RoundTrip
import Userver.Lib.Lanes
import Userver.Lib.Search
import Userver.Utils.ByteUtils
import Userver.Utils.Hex
import Userver.Utils.Statistics.Histogram
import Userver.Utils.StrIcase
import Userver.Lib.Utf8
import Userver.Utils.Text.Utf8
import Userver.Utils.TokenBucket
import Userver.Utils.Statistics.RecentPeriod
import Userver.Cache.NWayLru
import Userver.Tskv.Blocks
import Userver.Decimal64.Options
import Userver.Decimal64.Arith
import Userver.Decimal64.Ops
import Userver.Lib.Segment
import Userver.Concurrent.IntrusiveMpscQueue
import Userver.Concurrent.IntrusiveMpscQueueInvariant
import Userver.Concurrent.IntrusiveMpscQueueSpec
import Userver.Engine.AsyncFlatCombiningQueue
import Userver.Engine.AsyncFlatCombiningQueueInvariant
import Userver.Engine.AsyncFlatCombiningQueueSpec
