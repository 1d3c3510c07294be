import WriteBack.Config.Printer
import WriteBack.Main
import WriteBack.Proofs.Evictions
import WriteBack.Proofs.Consistency
import WriteBack.Proofs.Beats
import WriteBack.Proofs.Offers
import WriteBack.Proofs.Untimed
import WriteBack.Proofs.InStep
import WriteBack.Proofs.Refinement
import WriteBack.Proofs.Interruption
import WriteBack.Proofs.Preload
import WriteBack.Proofs.Operations
import WriteBack.Proofs.StoreHistory
import WriteBack.Proofs.Conservation
import WriteBack.Proofs.AckLatency
import WriteBack.Proofs.Freshness
import WriteBack.Proofs.ResidentBurst
import WriteBack.Proofs.Attribution
import WriteBack.Proofs.ConfigDocument
import WriteBack.Proofs.Acceptance
import WriteBack.Proofs.MaskedWrite
import WriteBack.Proofs.Checked
import WriteBack.Proofs.CheckedStep
import WriteBack.Proofs.BurstSequence
import WriteBack.Proofs.Drawing
import WriteBack.Proofs.Isolation
import WriteBack.Proofs.ServiceTime
import WriteBack.Proofs.Traffic
import WriteBack.Proofs.Violations
import WriteBack.Proofs.Recurrence
