import Xutil.Lib.Calls
import Xutil.Lib.Runs
import Xutil.Lib.Slots
import Xutil.Lib.Waiters
import Xutil.Lib.Lines
import Xutil.Lib.Regex
import Xutil.Lib.Ownership
import Xutil.Lib.Formats
import Xutil.Lib.Brackets
import Xutil.Lib.Digits
import Xutil.Lib.Scopes
import Xutil.Lib.Sections
import Xutil.Queue.Model
import Xutil.Queue.Laws
import Xutil.Queue.Locks
import Xutil.Signals.Model
import Xutil.Signals.Reported
import Xutil.Signals.Timeout
import Xutil.Signals.Rounds
import Xutil.Signals.Windows
import Xutil.Log.Dump
import Xutil.Log.Signature
import Xutil.Log.Model
import Xutil.Log.Names
import Xutil.Log.Line
import Xutil.Log.Sorted
import Xutil.Log.Disk
import Xutil.Log.Sink
import Xutil.Log.Outlets
import Xutil.Log.Delivery
import Xutil.Log.Tracer
import Xutil.Log.CallTree
import Xutil.Log.ReadTree
import Xutil.Log.Consistent
import Xutil.Log.Single
import Xutil.Log.Fresh
import Xutil.Log.Daily
import Xutil.Log.Archives
import Xutil.Loggers.Model
import Xutil.Loggers.Tags
import Xutil.Loggers.Deadlock
import Xutil.Redux.Model
import Xutil.Redux.Registry
import Xutil.Redux.Handles
import Xutil.Redux.Threads
import Xutil.Redux.Locks
import Xutil.Config.Model
import Xutil.Config.Values
import Xutil.Config.Lines
import Xutil.Config.Arguments
import Xutil.Config.GetOptions
import Xutil.Config.Configurations
import Xutil.Config.Keys
import Xutil.Config.Stored
import Xutil.Config.CommandLine
import Xutil.Config.Returns
import Xutil.Config.Numerals
import Xutil.Config.Integers
import Xutil.Config.Getters
import Xutil.Config.Effective
import Xutil.Db.Sqlite
import Xutil.Db.Statement
import Xutil.Db.Rows
import Xutil.Db.Past
import Xutil.Db.SelectOne
import Xutil.Db.Binding
import Xutil.Db.Numbers
import Xutil.Db.Targets
import Xutil.Db.Filled
import Xutil.Db.Loop
import Xutil.Db.Records
import Xutil.Db.Connection
import Xutil.Db.Ends
import Xutil.Db.Tidy
import Xutil.Db.Handles
import Xutil.Db.Replies
import Xutil.Db.Codes
import Xutil.Db.Failing
import Xutil.Db.Transaction
import Xutil.Db.Scopes
import Xutil.Db.Work
import Xutil.Db.Atomic
import Xutil.Exceptions.Dump
import Xutil.Files.ReadWhole
import Xutil.Sample.Main
