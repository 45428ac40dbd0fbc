import TraceReplay.Main
import TraceReplay.Render.Display
import TraceReplay.Trace.Equality
import TraceReplay.Proofs.Cursor.Order
import TraceReplay.Proofs.Cursor.Search
import TraceReplay.Proofs.Cursor.Neighbour
import TraceReplay.Proofs.Cursor.Placement
import TraceReplay.Proofs.Cursor.Stepping
import TraceReplay.Proofs.Cursor.Subtrace
import TraceReplay.Proofs.Interchange.Text
import TraceReplay.Proofs.Interchange.Fits
import TraceReplay.Proofs.Interchange.Document
import TraceReplay.Proofs.Interchange.Record
import TraceReplay.Proofs.Load
import TraceReplay.Proofs.Trace.Level
import TraceReplay.Proofs.Trace.Visit
import TraceReplay.Proofs.Trace.Statistics
import TraceReplay.Proofs.Trace.Tally
import TraceReplay.Proofs.Cursor.Walk
import TraceReplay.Proofs.Render.Line
import TraceReplay.Proofs.Render.Dump
import TraceReplay.Proofs.Render.Writing
import TraceReplay.Proofs.Render.Showing
import TraceReplay.Proofs.Render.Cutoff
import TraceReplay.Proofs.Trace.WellFormed
import TraceReplay.Proofs.Cursor.Numbering
import TraceReplay.Proofs.Cursor.Refusal
import TraceReplay.Proofs.Cursor.Landing
import TraceReplay.Proofs.Cursor.Enumeration
import TraceReplay.Proofs.Cursor.Depth
import TraceReplay.Proofs.Cursor.Path
import TraceReplay.Proofs.Cursor.Projection
import TraceReplay.Proofs.Trace.Worklist
import TraceReplay.Proofs.Trace.Lookup
import TraceReplay.Proofs.Interchange.Location
import TraceReplay.Proofs.Trace.Violation
import TraceReplay.Proofs.Reading.Extent
import TraceReplay.Proofs.Reading.Fault
import TraceReplay.Proofs.Reading.Misread
import TraceReplay.Proofs.Interchange.Draft
import TraceReplay.Proofs.Interchange.Edit
import TraceReplay.Proofs.Cursor.Worklist
import TraceReplay.Proofs.Session.Call
import TraceReplay.Proofs.Session.History
import TraceReplay.Proofs.Session.Interference
import TraceReplay.Proofs.Reading.Grammar
import TraceReplay.Proofs.Reading.Token
import TraceReplay.Proofs.Reading.Text
import TraceReplay.Proofs.Reading.Number
import TraceReplay.Proofs.Reading.Whole
import TraceReplay.Proofs.Reading.Ignored
import TraceReplay.Proofs.Reading.Unambiguous
import TraceReplay.Proofs.Reading.Meaning
import TraceReplay.Proofs.Reading.Elements
import TraceReplay.Proofs.Reading.Members
import TraceReplay.Proofs.Reading.Document
import TraceReplay.Proofs.Reading.Description
import TraceReplay.Proofs.Reading.Data
import TraceReplay.Proofs.Reading.Load
import TraceReplay.Proofs.Reading.Keyed
import TraceReplay.Proofs.Reading.Records
import TraceReplay.Proofs.Interactive.Isolation
import TraceReplay.Proofs.Interactive.Language
import TraceReplay.Proofs.Trace.Texts
import TraceReplay.Proofs.Render.Style
import TraceReplay.Proofs.Render.Colour
import TraceReplay.Proofs.Text.Number
import TraceReplay.Proofs.Trace.Selection
import TraceReplay.Proofs.Reading.Length
import TraceReplay.Proofs.Text.Words
import TraceReplay.Proofs.Program.Arguments
import TraceReplay.Proofs.Program.Numbers
import TraceReplay.Proofs.Storage.Paths
import TraceReplay.Proofs.Storage.Saving
