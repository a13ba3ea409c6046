import Reckoner.Main
import Reckoner.Worker.Script
import Reckoner.Proofs.Coherence
import Reckoner.Proofs.Concurrency.Interleaving
import Reckoner.Proofs.Copies
import Reckoner.Proofs.Evaluation
import Reckoner.Proofs.Formula.Outline
import Reckoner.Proofs.Formula.Rendering
import Reckoner.Proofs.Http.StatusCodes
import Reckoner.Proofs.Isolation
import Reckoner.Proofs.PostOrder
import Reckoner.Proofs.Records
import Reckoner.Proofs.Task.Bookkeeping
import Reckoner.Proofs.Wire.Lossless
import Reckoner.Proofs.Scheduling
import Reckoner.Proofs.Task.Acyclic
import Reckoner.Proofs.Formula.Height
import Reckoner.Proofs.Coordinator.Drain
import Reckoner.Proofs.Waves
import Reckoner.Proofs.Task.Rooted
import Reckoner.Proofs.Task.Footprint
import Reckoner.Proofs.Http.Delivery
import Reckoner.Proofs.Worker.Shift
