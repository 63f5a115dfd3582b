import PioBlock.Main
import PioBlock.Proofs.Slots
import PioBlock.Proofs.Footprint
import PioBlock.Proofs.Scope
import PioBlock.Proofs.Loading
import PioBlock.Proofs.Session
import PioBlock.Proofs.Residents
import PioBlock.Proofs.Faults
import PioBlock.Proofs.FirstFit
import PioBlock.Proofs.Addressing
import PioBlock.Proofs.LawfulBlock
import PioBlock.Proofs.Hosting
import PioBlock.Proofs.FlatMemory
import PioBlock.Proofs.FlatHosting
import PioBlock.Proofs.CodeMemory
import PioBlock.Proofs.Geometry
import PioBlock.Proofs.LoadedCode
import PioBlock.Proofs.Relocation
import PioBlock.Proofs.Fields
import PioBlock.Proofs.Pads
import PioBlock.Proofs.Restoring
import PioBlock.Proofs.PinHelpers
import PioBlock.Proofs.Initialisation
import PioBlock.Proofs.Polling
import PioBlock.Proofs.Refusals
import PioBlock.Proofs.Subjects
import PioBlock.Proofs.Keeping
import PioBlock.Proofs.ProgramConfig
import PioBlock.Proofs.Installation
import PioBlock.Proofs.ControlFlow
import PioBlock.Proofs.Listing.Tokens
import PioBlock.Proofs.Listing.Numbers
import PioBlock.Proofs.Listing.Grammar
import PioBlock.Proofs.Listing.LineForms
import PioBlock.Proofs.Listing.Acceptance
import PioBlock.Proofs.Listing.Reading
import PioBlock.Proofs.Listing.Lines
import PioBlock.Proofs.Listing.Bytes
import PioBlock.Proofs.Listing.Written
import PioBlock.Proofs.Listing.WellFormed
import PioBlock.Proofs.Listing.Endings
import PioBlock.Proofs.Listing.FirstRefusal
import PioBlock.Proofs.Listing.Ignorable
import PioBlock.Proofs.Listing.DirectiveParts
import PioBlock.Proofs.Listing.Slices
import PioBlock.Proofs.Listing.NameFaults
import PioBlock.Proofs.Listing.LineNumbers
import PioBlock.Proofs.CommandLine.Paths
import PioBlock.Proofs.CommandLine.Walking
import PioBlock.Proofs.CommandLine.Building
import PioBlock.Proofs.Touching
import PioBlock.Proofs.Isolation
import PioBlock.Proofs.Enabling
import PioBlock.Proofs.UnmatchedUnload
import PioBlock.Proofs.Binary32.Packing
import PioBlock.Proofs.Binary32.Exact
import PioBlock.Proofs.Settings.Truncation
import PioBlock.Proofs.Settings.ClockDivider
import PioBlock.Proofs.Settings.ConfigFields
import PioBlock.Proofs.Settings.Aspects
import PioBlock.Proofs.Settings.Lenses
import PioBlock.Proofs.Settings.ReadBack
import PioBlock.Proofs.Settings.InPlace
import PioBlock.Proofs.Waiting
import PioBlock.Proofs.Claims
import PioBlock.Proofs.Bases.Aliasing
import PioBlock.Proofs.Bases.Mirroring
import PioBlock.Proofs.Bases.Operations
import PioBlock.Proofs.Bases.Histories
import PioBlock.Proofs.Panics.Absence
