import TypedExports.CommandLine.World
import TypedExports.Main
import TypedExports.Proofs.Header.Replacement
import TypedExports.Proofs.Header.RoundTrip
import TypedExports.Proofs.Text.LineEnding
import TypedExports.Proofs.Header.LineEnding
import TypedExports.Proofs.Comment.Inline
import TypedExports.Proofs.Header.Extracted
import TypedExports.Proofs.Interface.DocBlock
import TypedExports.Proofs.Provenance
import TypedExports.Proofs.Catalogue
import TypedExports.Proofs.Interface.Reading
import TypedExports.Proofs.Header.Call
import TypedExports.Proofs.Interface.Rearrangement
import TypedExports.Proofs.FileSystem
import TypedExports.Proofs.CommandLine.Effect
import TypedExports.Proofs.CommandLine.Environment
import TypedExports.Proofs.Catalogue.Groups
import TypedExports.Proofs.Catalogue.Listing
import TypedExports.Proofs.Comment.Field
import TypedExports.Proofs.Comment.Params
import TypedExports.Proofs.Comment.Edit
import TypedExports.Proofs.Comment.Reparse
import TypedExports.Proofs.Comment.Layout
import TypedExports.Proofs.Comment.BlankTag
import TypedExports.Proofs.Header.WellFormed
import TypedExports.Proofs.Interface.Heading
import TypedExports.Proofs.VersionControl
import TypedExports.Proofs.Header.Cursor
