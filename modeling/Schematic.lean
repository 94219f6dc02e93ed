import Schematic.Main
import Schematic.Session
import Schematic.Proofs.Alignment.Guarantee
import Schematic.Proofs.CommandLine.Endings
import Schematic.Proofs.CommandLine.Sources
import Schematic.Proofs.Layout.HalfUnits
import Schematic.Proofs.Layout.Moving
import Schematic.Proofs.Reading.HandBuilt
import Schematic.Proofs.Reading.Notation
import Schematic.Proofs.Tiling.Planar
import Schematic.Proofs.CommandLine.Debugging
import Schematic.Proofs.CommandLine.Delivery
import Schematic.Proofs.Layout.Flattened
import Schematic.Proofs.Connectivity.ClassOrder
import Schematic.Proofs.Number.Ranks
import Schematic.Proofs.Connectivity.Touching
import Schematic.Proofs.Connectivity.Ranked
import Schematic.Proofs.Connectivity.Nodes
import Schematic.Proofs.Connectivity.Counted
import Schematic.Proofs.Reading.Shortest
import Schematic.Proofs.Reading.Caret
import Schematic.Proofs.Alignment.Leads
import Schematic.Proofs.Alignment.Blamed
import Schematic.Proofs.Alignment.Turned
import Schematic.Proofs.Layout.Buses
import Schematic.Proofs.Layout.Rails
import Schematic.Proofs.Tiling.Shunts
import Schematic.Proofs.Drawing.Numbers
import Schematic.Proofs.Drawing.Artwork
import Schematic.Proofs.Drawing.Ends
import Schematic.Proofs.Layout.Preorder
import Schematic.Proofs.Reading.Lexemes
import Schematic.Proofs.Settings.Listed
import Schematic.Proofs.Yaml.Blocks
import Schematic.Proofs.Yaml.QuotedText
import Schematic.Proofs.Yaml.Values
