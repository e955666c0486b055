import SeriesParallel.Main
import SeriesParallel.Network.Dump
import SeriesParallel.Proofs.Circuit.Balance
import SeriesParallel.Proofs.Circuit.Conservation
import SeriesParallel.Proofs.Circuit.Finding
import SeriesParallel.Proofs.Circuit.Guards
import SeriesParallel.Proofs.Circuit.Overflow
import SeriesParallel.Proofs.CommandLine.Routes
import SeriesParallel.Proofs.Decimal.Amounts
import SeriesParallel.Proofs.Description.Positions
import SeriesParallel.Proofs.Network.Addresses
import SeriesParallel.Proofs.Network.Kirchhoff
import SeriesParallel.Proofs.Network.Monotone
import SeriesParallel.Proofs.Network.Names
import SeriesParallel.Proofs.Network.Preservation
import SeriesParallel.Proofs.Network.Rewriting
import SeriesParallel.Proofs.Network.StructureText
import SeriesParallel.Proofs.Network.Wires
import SeriesParallel.Proofs.Schematic.Decoding
import SeriesParallel.Proofs.Schematic.History
import SeriesParallel.Proofs.Schematic.Intervals
import SeriesParallel.Proofs.Schematic.Middle
import SeriesParallel.Proofs.Schematic.Rendering
import SeriesParallel.Proofs.Schematic.Size
import SeriesParallel.Proofs.Schematic.Width
import SeriesParallel.Proofs.Topology.Spelling
