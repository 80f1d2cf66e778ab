import ScriptDepot.FileSystem.Listing
import ScriptDepot.Main
import ScriptDepot.Proofs.Reply
import ScriptDepot.Proofs.Conversation
import ScriptDepot.Proofs.FileSystem
import ScriptDepot.Proofs.Shelf
import ScriptDepot.Proofs.Capacity
import ScriptDepot.Proofs.Json.Grammar
import ScriptDepot.Proofs.Json.Numeral
import ScriptDepot.Proofs.Json.Strings
import ScriptDepot.Proofs.Json.Written
import ScriptDepot.Proofs.ReplyText
import ScriptDepot.Proofs.Path
import ScriptDepot.Proofs.Mirror
import ScriptDepot.Proofs.Backends
import ScriptDepot.Proofs.LastSave
import ScriptDepot.Proofs.Connections
import ScriptDepot.Proofs.EventLoop
import ScriptDepot.Proofs.ConcurrentSaves
import ScriptDepot.Proofs.FileGrowth
import ScriptDepot.Proofs.Utf8.Strict
import ScriptDepot.Proofs.Breakdown
import ScriptDepot.Proofs.Contract
import ScriptDepot.Proofs.Console.Run
import ScriptDepot.Proofs.Console.Protocol
import ScriptDepot.Proofs.Console.Files
import ScriptDepot.Proofs.Console.Ending
import ScriptDepot.Proofs.Json.Lexemes
import ScriptDepot.Proofs.Json.Reading
import ScriptDepot.Proofs.Json.Within
import ScriptDepot.Proofs.Json.Acceptance
import ScriptDepot.Proofs.Json.RoundTrip
import ScriptDepot.Proofs.Number.Overflow
import ScriptDepot.Proofs.Sendable
import ScriptDepot.Proofs.FolderContract
import ScriptDepot.Proofs.Utf8.FileNames
import ScriptDepot.Proofs.Listing
import ScriptDepot.Proofs.PutFrame
import ScriptDepot.Proofs.LookupNames
import ScriptDepot.Proofs.Wide
import ScriptDepot.Proofs.ByteFrames
import ScriptDepot.Proofs.CommandLine.Options
import ScriptDepot.Proofs.CommandLine.Wording
import ScriptDepot.Proofs.Console.RoundTrip
import ScriptDepot.Proofs.Precedence
