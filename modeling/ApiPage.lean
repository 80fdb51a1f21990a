import ApiPage.Main
import ApiPage.Ty.Unpack
import ApiPage.Proofs.Ty.Grammar
import ApiPage.Proofs.Ty.Parsing
import ApiPage.Proofs.Ty.Canonical
import ApiPage.Proofs.Ty.Unions
import ApiPage.Proofs.Ty.Projections
import ApiPage.Proofs.Item.Document
import ApiPage.Proofs.Text.Endings
import ApiPage.Proofs.Item.Represents
import ApiPage.Proofs.Page.Rendering
import ApiPage.Proofs.Item.Reordering
import ApiPage.Proofs.Item.Paths
import ApiPage.Proofs.Cli.Effects
import ApiPage.Proofs.Page.KeyOrder
import ApiPage.Proofs.Journal.Delivery
import ApiPage.Proofs.Page.Blocks
import ApiPage.Proofs.Page.Arrangement
import ApiPage.Proofs.Item.Blame
import ApiPage.Proofs.Item.Halting
import ApiPage.Proofs.Cli.Unreadable
import ApiPage.Proofs.Cli.Gathering
import ApiPage.Proofs.Cli.CommandLine
import ApiPage.Proofs.Cli.Output
import ApiPage.Proofs.Page.Entries
import ApiPage.Proofs.Page.Bullets
import ApiPage.Proofs.Page.Declaration
import ApiPage.Proofs.Page.Faithful
import ApiPage.Proofs.Params.Markers
import ApiPage.Proofs.Params.Signature
import ApiPage.Proofs.Page.Layout
import ApiPage.Proofs.Page.Groups
import ApiPage.Proofs.Item.Relocation
import ApiPage.Proofs.Item.Absence
import ApiPage.Proofs.Page.ListedTypes
import ApiPage.Proofs.Params.Lookup
import ApiPage.Proofs.Ty.Scanning
import ApiPage.Proofs.Text.Numeral
import ApiPage.Proofs.Settings.Root
import ApiPage.Proofs.Settings.Entries
import ApiPage.Proofs.Settings.Numbers
import ApiPage.Proofs.Cli.Verbosity
import ApiPage.Proofs.Page.Headings
import ApiPage.Proofs.Ty.Spacing
import ApiPage.Proofs.Page.Fences
