import ScopedCss.Text.Basic
import ScopedCss.Text.Blank
import ScopedCss.Text.Line
import ScopedCss.Text.Letter
import ScopedCss.Text.Numeral
import ScopedCss.Text.Printable
import ScopedCss.Text.Quoted
import ScopedCss.Text.ControlSequence
import ScopedCss.Location
import ScopedCss.Error
import ScopedCss.Token.Basic
import ScopedCss.Token.Lexeme
import ScopedCss.Token.Lexer
import ScopedCss.Token.Lookahead
import ScopedCss.Token.Cursor
import ScopedCss.Sheet.Fragment
import ScopedCss.Selector.Basic
import ScopedCss.Selector.Parser
import ScopedCss.Sheet.Basic
import ScopedCss.Sheet.Equality
import ScopedCss.Sheet.Recovery
import ScopedCss.Sheet.Parser
import ScopedCss.Assoc
import ScopedCss.Decimal.Shortest
import ScopedCss.Decimal.Layout
import ScopedCss.Value
import ScopedCss.Sheet.Expansion
import ScopedCss.Diagnostic
import ScopedCss.Stylesheet.Basic
import ScopedCss.Stylesheet.Printer
import ScopedCss.Stylesheet.Resolved
import ScopedCss.Stylesheet.Flatten
import ScopedCss.Digest.Sha256
import ScopedCss.Digest.Hex
import ScopedCss.Digest.Base32
import ScopedCss.Fingerprint.Normal
import ScopedCss.Fingerprint.Payload
import ScopedCss.Fingerprint.ClassName
import ScopedCss.Registry.Style
import ScopedCss.Registry.Event
import ScopedCss.Registry.Holdings
import ScopedCss.Registry.Basic
import ScopedCss.Host.Bus
import ScopedCss.Host.Command
import ScopedCss.Host.Basic
import ScopedCss.Host.Session
import ScopedCss.CommandLine.Arguments
import ScopedCss.CommandLine.Outline
import ScopedCss.CommandLine.File
import ScopedCss.CommandLine.Run
import ScopedCss.Main
import ScopedCss.Proofs.Assoc
import ScopedCss.Proofs.Except
import ScopedCss.Proofs.Fingerprint.Payload
import ScopedCss.Proofs.Fingerprint.Values
import ScopedCss.Proofs.Host.Lifecycle
import ScopedCss.Proofs.Host.Nesting
import ScopedCss.Proofs.Host.Listening
import ScopedCss.Proofs.Registry.Cache
import ScopedCss.Proofs.Registry.Clearing
import ScopedCss.Proofs.Registry.Invariant
import ScopedCss.Proofs.Registry.Run
import ScopedCss.Proofs.Selector.Reading
import ScopedCss.Proofs.Sheet.Expansion
import ScopedCss.Proofs.Sheet.Reading
import ScopedCss.Proofs.Stylesheet.Flatten
import ScopedCss.Proofs.Stylesheet.Listing
import ScopedCss.Proofs.Stylesheet.Template
import ScopedCss.Proofs.Token.Lexeme
import ScopedCss.Proofs.Token.Reading
import ScopedCss.Proofs.Token.Tiling
import ScopedCss.Proofs.Token.Places
import ScopedCss.Proofs.Selector.Faults
import ScopedCss.Proofs.Sheet.Faults
import ScopedCss.Proofs.Sheet.Places
import ScopedCss.Proofs.Stylesheet.Places
import ScopedCss.Proofs.Stylesheet.ScopeClass
import ScopedCss.Proofs.Selector.Checked
import ScopedCss.Proofs.Sheet.Checked
import ScopedCss.Proofs.Sheet.Progress
import ScopedCss.Proofs.Token.Squeezed
import ScopedCss.Proofs.Token.Respacing
import ScopedCss.Proofs.Selector.Relocation
import ScopedCss.Proofs.Sheet.Relocation
import ScopedCss.Proofs.Fingerprint.Normal
import ScopedCss.Proofs.Sheet.Level
import ScopedCss.Proofs.Stylesheet.Legible
import ScopedCss.Proofs.Fingerprint.Mapping
import ScopedCss.Proofs.Host.Failing
import ScopedCss.Proofs.Sheet.WellFormed
import ScopedCss.Proofs.Sheet.Semicolon
import ScopedCss.Proofs.Sheet.Rereading
import ScopedCss.Proofs.Stylesheet.Relocation
import ScopedCss.Proofs.Stylesheet.Reprint
import ScopedCss.Proofs.Registry.Reprint
import ScopedCss.Proofs.Stylesheet.Exchange
import ScopedCss.Proofs.Sheet.Order
import ScopedCss.Proofs.Stylesheet.Complete
import ScopedCss.Proofs.Sheet.Boundary
import ScopedCss.Proofs.Stylesheet.Forest
import ScopedCss.Proofs.Sheet.Placeholders
import ScopedCss.Proofs.Sheet.Filling
import ScopedCss.Proofs.Registry.Warnings
import ScopedCss.Proofs.Token.Collapse
import ScopedCss.Proofs.Digest.Base32
import ScopedCss.Proofs.Fingerprint.ClassName
import ScopedCss.Proofs.Token.Lookahead
