import GameHost.Text.Unicode
import GameHost.Binary.Decimal
import GameHost.Line
import GameHost.Glob
import GameHost.Numeral
import GameHost.Message.Field
import GameHost.Message.Cursor
import GameHost.Shell.Names
import GameHost.Relay
import GameHost.Network.Driver
import GameHost.Disk.Stream
import GameHost.SearchPath
import GameHost.Client.Connection
import GameHost.Client.Frame
import GameHost.Headless
import GameHost.Main
import GameHost.Proofs.Replay.RoundTrip
import GameHost.Proofs.Lockstep.Schedule
import GameHost.Proofs.Client.Consistency
import GameHost.Proofs.Client.Reliable
import GameHost.Proofs.Client.Recorded
import GameHost.Proofs.Client.Complete
import GameHost.Proofs.Client.Shown
import GameHost.Proofs.Demo.Truncated
import GameHost.Proofs.Client.Rounds
import GameHost.Proofs.Message.Discipline
import GameHost.Proofs.Shell.Namespace
import GameHost.Proofs.Shell.SavedAliases
import GameHost.Proofs.Client.SavedConfig
import GameHost.Proofs.Client.Obeyed
import GameHost.Proofs.Replay.Divergence
import GameHost.Proofs.Message.Codec
import GameHost.Proofs.Shell.Batches
import GameHost.Proofs.Shell.Quoted
import GameHost.Proofs.Shell.Indexed
import GameHost.Proofs.Client.Remote
import GameHost.Proofs.Client.Bounds
import GameHost.Proofs.Shell.Splitting
import GameHost.Proofs.Shell.Lexemes
import GameHost.Proofs.Client.Startup
import GameHost.Proofs.Client.Comments
import GameHost.Proofs.Shell.Listings
import GameHost.Proofs.Client.AliasLoops
import GameHost.Proofs.Client.InPlace
import GameHost.Proofs.Shell.Announcements
import GameHost.Proofs.Client.WriteFolder
import GameHost.Proofs.Shell.Tails
import GameHost.Proofs.Client.Stopwatch
import GameHost.Proofs.Client.Metering
import GameHost.Proofs.Client.SpeedReports
import GameHost.Proofs.Message.Rollback
import GameHost.Proofs.Message.Reading
import GameHost.Proofs.Numeral
import GameHost.Proofs.Message.Angles
