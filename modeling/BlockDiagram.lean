import BlockDiagram.Diagram.Propagation
import BlockDiagram.Text.Reading
import BlockDiagram.Proofs.Coherence
import BlockDiagram.Proofs.HandOff
import BlockDiagram.Proofs.Replay
import BlockDiagram.Proofs.Likeness
import BlockDiagram.Proofs.Ledger
import BlockDiagram.Proofs.Sweep
import BlockDiagram.Proofs.Freshness
import BlockDiagram.Proofs.Sealing
import BlockDiagram.Proofs.Usable
import BlockDiagram.Proofs.FanOut
import BlockDiagram.Proofs.Enclosure
import BlockDiagram.Proofs.Chronicle
import BlockDiagram.Proofs.Numbered
import BlockDiagram.Proofs.Entries
import BlockDiagram.Proofs.Nesting
import BlockDiagram.Proofs.Inheritance
import BlockDiagram.Proofs.Clocks
import BlockDiagram.Proofs.Spread
import BlockDiagram.Proofs.Timing
import BlockDiagram.Proofs.Opening
import BlockDiagram.Proofs.Tracking
import BlockDiagram.Proofs.Installing
import BlockDiagram.Proofs.Refusals
import BlockDiagram.Proofs.Batches
import BlockDiagram.Proofs.Pursuit
import BlockDiagram.Proofs.Lineage
