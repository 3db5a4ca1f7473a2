import LineLexer.Check.Coverage
import LineLexer.Check.Tokens
import LineLexer.Diagnostic.Bag
import LineLexer.Diagnostic.Basic
import LineLexer.Diagnostic.Reporting
import LineLexer.Diagnostic.Summary
import LineLexer.Listing.Basic
import LineLexer.Listing.Codec
import LineLexer.Listing.Draft
import LineLexer.Pack.Read
import LineLexer.Pack.Write
import LineLexer.Report.Color
import LineLexer.Report.Name
import LineLexer.Report.Pretty
import LineLexer.Report.Preview
import LineLexer.Report.Structured
import LineLexer.Report.Tokens
import LineLexer.Scan.Cursor
import LineLexer.Scan.Delivery
import LineLexer.Scan.Error
import LineLexer.Scan.Line
import LineLexer.Scan.Scanner
import LineLexer.Scan.TokenStream
import LineLexer.Session.Batch
import LineLexer.Session.Cache
import LineLexer.Session.Options
import LineLexer.Session.Render
import LineLexer.Session.Tokenize
import LineLexer.Settings.Basic
import LineLexer.Settings.Decode
import LineLexer.Source.File
import LineLexer.Source.Span
import LineLexer.Text.Blank
import LineLexer.Text.Bytes
import LineLexer.Text.Cluster
import LineLexer.Text.Digest
import LineLexer.Text.Fixed
import LineLexer.Text.Glyph
import LineLexer.Text.Graphic
import LineLexer.Text.Json
import LineLexer.Text.Lowercase
import LineLexer.Text.Quoted
import LineLexer.Text.Width
import LineLexer.Timing.Stopwatch
import LineLexer.Token.Basic
import LineLexer.Token.Kind
import LineLexer.Token.Vocabulary
import LineLexer.Toml.Document
import LineLexer.Toml.Number
import LineLexer.Toml.Strings
import LineLexer.Toml.Syntax
import LineLexer.Trace.Event
import LineLexer.Trace.Level
import LineLexer.Trace.Recorder
import LineLexer.Trace.Sink
import LineLexer.Proofs.Text.Decoding
import LineLexer.Proofs.Text.Boundaries
import LineLexer.Proofs.Token.Vocabulary
import LineLexer.Proofs.Scan.Segment
import LineLexer.Proofs.Scan.LongestMatch
import LineLexer.Proofs.Source.Lines
import LineLexer.Proofs.Scan.Delivery
import LineLexer.Proofs.Scan.Counting
import LineLexer.Proofs.Scan.Endless
import LineLexer.Proofs.Scan.Place
import LineLexer.Proofs.Check.Scanned
import LineLexer.Proofs.Scan.ErrorPlace
import LineLexer.Proofs.Listing.RoundTrip
import LineLexer.Proofs.Scan.Size
import LineLexer.Proofs.Scan.Rebinding
import LineLexer.Proofs.Listing.Scanned
import LineLexer.Proofs.Session.Transparency
import LineLexer.Proofs.Scan.Recut
import LineLexer.Proofs.Scan.Spelling
import LineLexer.Proofs.Scan.Grammar
import LineLexer.Proofs.Scan.Reprint
import LineLexer.Proofs.Scan.Account
import LineLexer.Proofs.Scan.Shift
import LineLexer.Proofs.Scan.Repair
import LineLexer.Proofs.Scan.Independence
import LineLexer.Proofs.Scan.Pulls
import LineLexer.Proofs.Scan.Lookahead
import LineLexer.Proofs.Diagnostic.Accounting
import LineLexer.Proofs.Diagnostic.Collecting
import LineLexer.Proofs.Diagnostic.Sorting
import LineLexer.Proofs.Diagnostic.Ties
import LineLexer.Proofs.Source.Storing
import LineLexer.Proofs.Trace.Emission
import LineLexer.Proofs.Scan.Outlook
import LineLexer.Proofs.Scan.Tracing
import LineLexer.Proofs.Session.Closing
import LineLexer.Proofs.Session.Course
import LineLexer.Proofs.Source.Coordinates
import LineLexer.Proofs.Session.Timings
import LineLexer.Proofs.Session.Batch
import LineLexer.Proofs.Source.Reassembly
import LineLexer.Proofs.Report.Preview
import LineLexer.Proofs.Diagnostic.Repeats
import LineLexer.Proofs.Diagnostic.Summary
import LineLexer.Proofs.Trace.Latest
import LineLexer.Proofs.Report.Snippet
import LineLexer.Proofs.Text.Encoding
import LineLexer.Proofs.Report.Tabs
import LineLexer.Proofs.Report.Escapes
import LineLexer.Proofs.Report.Coloring
import LineLexer.Proofs.Report.Failure
import LineLexer.Proofs.Diagnostic.Forwarding
import LineLexer.Proofs.Scan.Reading
import LineLexer.Proofs.Check.Overrun
import LineLexer.Proofs.Text.Lowercase
import LineLexer.Proofs.Session.Usable
