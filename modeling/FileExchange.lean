import FileExchange.AccessRecord
import FileExchange.Client.Sender
import FileExchange.Client.Shell
import FileExchange.CommandLine.Exit
import FileExchange.CommandLine.Help
import FileExchange.CommandLine.Reading
import FileExchange.CommandLine.Send
import FileExchange.CommandLine.Serve
import FileExchange.CommandLine.Spec
import FileExchange.CommandLine.Token
import FileExchange.CommandLine.Wrap
import FileExchange.Config.ClientConfig
import FileExchange.Config.Environment
import FileExchange.Config.ServerConfig
import FileExchange.Connection
import FileExchange.Failure
import FileExchange.Fault
import FileExchange.Http.Listing
import FileExchange.Http.Request
import FileExchange.Http.Response
import FileExchange.Journal
import FileExchange.Live.Disk
import FileExchange.Live.Service
import FileExchange.Live.Socket
import FileExchange.Live.Transfer
import FileExchange.Main
import FileExchange.Media.Registry
import FileExchange.Media.Type
import FileExchange.Number.Binary64
import FileExchange.Number.Decimal
import FileExchange.Number.Fixed
import FileExchange.Number.Integer
import FileExchange.Number.Shortest
import FileExchange.Path
import FileExchange.Peer
import FileExchange.Proofs.Arrival
import FileExchange.Proofs.Client.Announcement
import FileExchange.Proofs.Client.Commands
import FileExchange.Proofs.Client.Delivery
import FileExchange.Proofs.Client.Sending
import FileExchange.Proofs.CommandLine.Batch
import FileExchange.Proofs.Config.Validity
import FileExchange.Proofs.Connection.Conservation
import FileExchange.Proofs.Connection.LineBounds
import FileExchange.Proofs.Connection.Release
import FileExchange.Proofs.Cutting
import FileExchange.Proofs.Http.Attachment
import FileExchange.Proofs.Http.Grammar
import FileExchange.Proofs.Http.Head
import FileExchange.Proofs.Http.Links
import FileExchange.Proofs.Http.Listing
import FileExchange.Proofs.Http.RequestLine
import FileExchange.Proofs.Interleaving.Alone
import FileExchange.Proofs.Interleaving.Attribution
import FileExchange.Proofs.Interleaving.Order
import FileExchange.Proofs.Interleaving.Steps
import FileExchange.Proofs.Interleaving.Whole
import FileExchange.Proofs.Media.Extensions
import FileExchange.Proofs.Media.Packing
import FileExchange.Proofs.Media.Spelling
import FileExchange.Proofs.Media.Type
import FileExchange.Proofs.Number.Rounding
import FileExchange.Proofs.Number.Shortest
import FileExchange.Proofs.Number.Spelling
import FileExchange.Proofs.Path
import FileExchange.Proofs.Serve.Acceptance
import FileExchange.Proofs.Serve.Accounting
import FileExchange.Proofs.Serve.Agreement
import FileExchange.Proofs.Serve.Answers
import FileExchange.Proofs.Serve.Containment
import FileExchange.Proofs.Serve.CutShort
import FileExchange.Proofs.Serve.Downloads
import FileExchange.Proofs.Serve.Handlers
import FileExchange.Proofs.Serve.Images
import FileExchange.Proofs.Serve.ListingPages
import FileExchange.Proofs.Serve.Listings
import FileExchange.Proofs.Serve.LogLines
import FileExchange.Proofs.Serve.Moves
import FileExchange.Proofs.Serve.Navigation
import FileExchange.Proofs.Serve.OneAnswer
import FileExchange.Proofs.Serve.Outside
import FileExchange.Proofs.Serve.PageLinks
import FileExchange.Proofs.Serve.Pages
import FileExchange.Proofs.Serve.Reading
import FileExchange.Proofs.Serve.Rechunked
import FileExchange.Proofs.Serve.Records
import FileExchange.Proofs.Serve.Recut
import FileExchange.Proofs.Serve.Replies
import FileExchange.Proofs.Serve.Retrieval
import FileExchange.Proofs.Serve.Sending
import FileExchange.Proofs.Serve.ShownText
import FileExchange.Proofs.Serve.Sites
import FileExchange.Proofs.Serve.Statuses
import FileExchange.Proofs.Serve.Steps
import FileExchange.Proofs.Serve.Storable
import FileExchange.Proofs.Serve.Targets
import FileExchange.Proofs.Serve.TextPages
import FileExchange.Proofs.Serve.Transaction
import FileExchange.Proofs.Serve.Transfer
import FileExchange.Proofs.Serve.Uploads
import FileExchange.Proofs.Server.AcceptLoop
import FileExchange.Proofs.Server.CleanUp
import FileExchange.Proofs.Server.Handlers
import FileExchange.Proofs.Server.Isolation
import FileExchange.Proofs.Stream
import FileExchange.Proofs.Text.Decoding
import FileExchange.Proofs.Text.Escapes
import FileExchange.Proofs.Text.JsonReading
import FileExchange.Proofs.Text.Letters
import FileExchange.Proofs.Text.Lines
import FileExchange.Proofs.Text.Markup
import FileExchange.Proofs.Text.Percent
import FileExchange.Proofs.Text.Pieces
import FileExchange.Proofs.Text.Visible
import FileExchange.Proofs.Time.Calendar
import FileExchange.Proofs.Time.HttpDate
import FileExchange.Proofs.Tree.Children
import FileExchange.Proofs.Tree.Directories
import FileExchange.Proofs.Tree.Files
import FileExchange.Proofs.Tree.Lookup
import FileExchange.Proofs.Tree.Loops
import FileExchange.Proofs.Tree.Places
import FileExchange.Proofs.Tree.Reader
import FileExchange.Proofs.Tree.Real
import FileExchange.Proofs.Tree.RealFiles
import FileExchange.Proofs.Tree.RealPath
import FileExchange.Proofs.Tree.Storing
import FileExchange.Proofs.Tree.Walks
import FileExchange.Serve.Directory
import FileExchange.Serve.Dispatch
import FileExchange.Serve.Exchange
import FileExchange.Serve.File
import FileExchange.Serve.Site
import FileExchange.Serve.Upload
import FileExchange.Server.Host
import FileExchange.Server.Listener
import FileExchange.Text.Ascii
import FileExchange.Text.Base64
import FileExchange.Text.Blank
import FileExchange.Text.Digit
import FileExchange.Text.Encoding
import FileExchange.Text.JsonText
import FileExchange.Text.Letters
import FileExchange.Text.Markup
import FileExchange.Text.Percent
import FileExchange.Text.Printable
import FileExchange.Text.Quoted
import FileExchange.Text.Split
import FileExchange.Text.Utf8
import FileExchange.Time.Calendar
import FileExchange.Time.HttpDate
import FileExchange.Time.LogStamp
import FileExchange.Tree.Basic
import FileExchange.Tree.Change
import FileExchange.Tree.Lookup
import FileExchange.Tree.Reader
import FileExchange.Tree.Resolve
import FileExchange.Tree.Snapshot
import FileExchange.World
