import SqlScript.Log
import SqlScript.Node.Equality
import SqlScript.Node.Walk
import SqlScript.Proofs.Attachment.Appending
import SqlScript.Proofs.Attachment.Between
import SqlScript.Proofs.Attachment.Collecting
import SqlScript.Proofs.Attachment.Direction
import SqlScript.Proofs.Attachment.Loosening
import SqlScript.Proofs.Attachment.Moving
import SqlScript.Proofs.Attachment.Records
import SqlScript.Proofs.Attachment.Restricting
import SqlScript.Proofs.Node.Agreement
import SqlScript.Proofs.Node.Correspondence
import SqlScript.Proofs.Node.Dashes
import SqlScript.Proofs.Node.Form
import SqlScript.Proofs.Node.Places
import SqlScript.Proofs.Node.Recorded
import SqlScript.Proofs.Node.Separators
import SqlScript.Proofs.Node.Walking
import SqlScript.Proofs.Output.Accounting
import SqlScript.Proofs.Output.Streaming
import SqlScript.Proofs.Tree.DataType
import SqlScript.Proofs.Tree.Script
import SqlScript.Proofs.Tree.Timestamp
