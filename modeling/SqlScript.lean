import SqlScript.Text
import SqlScript.Text.Quoted
import SqlScript.Region
import SqlScript.Rules
import SqlScript.Token
import SqlScript.Dialect
import SqlScript.Reader
import SqlScript.Script
import SqlScript.Cursor
import SqlScript.Cookbook
import SqlScript.Proofs.Region.Ending
import SqlScript.Proofs.Region.Quote
import SqlScript.Proofs.Region.Nesting
import SqlScript.Proofs.Region.Parity
import SqlScript.Proofs.Grammar
import SqlScript.Proofs.Lookahead
import SqlScript.Proofs.Text.Trim
import SqlScript.Proofs.Segments
import SqlScript.Proofs.Separators
import SqlScript.Proofs.Accounting
import SqlScript.Proofs.Balance
import SqlScript.Proofs.OpenRegion
import SqlScript.Proofs.Region.BlockComment
import SqlScript.Proofs.Concatenation
import SqlScript.Proofs.Causality
import SqlScript.Proofs.Literal
import SqlScript.Proofs.Diagnosis
import SqlScript.Proofs.Padding
import SqlScript.Proofs.Rejoining
import SqlScript.Proofs.Terminator
import SqlScript.Proofs.Outlook
import SqlScript.Proofs.Agreement
import SqlScript.Proofs.Schedule
import SqlScript.Proofs.Region.FlatComment
import SqlScript.Proofs.Gap
import SqlScript.Proofs.PlainText
import SqlScript.Proofs.Resolution
import SqlScript.Proofs.Trace
import SqlScript.Proofs.Cursor.Reading
import SqlScript.Proofs.Cursor.Requests
import SqlScript.Proofs.Cursor.Progress
import SqlScript.Proofs.Cookbook.Migration
import SqlScript.Proofs.Cursor.Translation
import SqlScript.Proofs.Cookbook.Tables
