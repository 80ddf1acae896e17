import LiveLinear.Tableau.Sheet
import LiveLinear.Session.Report
import LiveLinear.Proofs.Decimal.Text
import LiveLinear.Proofs.Session.Accuracy
import LiveLinear.Proofs.Session.Consistency
import LiveLinear.Proofs.Elimination.Solvability
import LiveLinear.Proofs.Session.Trace
import LiveLinear.Proofs.Session.Atomicity
import LiveLinear.Proofs.Session.Assignment
import LiveLinear.Proofs.Session.Freezing
import LiveLinear.Proofs.Session.Service
import LiveLinear.Proofs.Session.LateFailure
import LiveLinear.Proofs.Session.Cascade
import LiveLinear.Proofs.Session.Rearranging
import LiveLinear.Proofs.Session.Notifying
import LiveLinear.Proofs.Session.Batching
import LiveLinear.Proofs.Session.Retracting
import LiveLinear.Proofs.Session.Repetition
import LiveLinear.Proofs.Session.Standstill
import LiveLinear.Proofs.Session.Maximality
import LiveLinear.Proofs.Session.Connection
import LiveLinear.Proofs.Session.Relocking
import LiveLinear.Proofs.Session.Unassembled
import LiveLinear.Proofs.Session.Dependence
import LiveLinear.Proofs.Session.Staleness
import LiveLinear.Proofs.Session.Diagnosis
import LiveLinear.Proofs.Elimination.Counting
import LiveLinear.Proofs.Elimination.Idempotence
import LiveLinear.Proofs.Elimination.Growth
import LiveLinear.Proofs.Session.Subscribing
import LiveLinear.Proofs.Session.Finiteness
import LiveLinear.Proofs.Session.Building
import LiveLinear.Proofs.Session.Transcription
