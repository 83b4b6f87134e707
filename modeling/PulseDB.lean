import PulseDB.Server.Transaction
import PulseDB.Server.Process
import PulseDB.Cmd.Expiry
import PulseDB.Resp.Cli
import PulseDB.Resp.Numeral
import PulseDB.Store.Counter
import PulseDB.Cmd.FieldMap
import PulseDB.Server.Handlers
import PulseDB.Rdb.Served
import PulseDB.Server.Consumer
import PulseDB.Server.Readable
import PulseDB.Server.Closing
import PulseDB.Cmd.Ranges
import PulseDB.Cmd.Dispatch
import PulseDB.GeoCode
import PulseDB.Store.Deques
import PulseDB.Server.Scores
import PulseDB.Server.Deadline
import PulseDB.Store.Strict
import PulseDB.Cli.Prompt
import PulseDB.Server.Output
import PulseDB.Server.Lifetime
import PulseDB.Server.Layout
import PulseDB.Server.Wakeup
import PulseDB.Server.Session
import PulseDB.Raw.Deques
