import SharedRadio.Answer
import SharedRadio.Registry.Lemmas
import SharedRadio.Log
import SharedRadio.Signal.Message
import SharedRadio.Signal.Frame
import SharedRadio.Clock.Dual
import SharedRadio.Clock.Cycle
import SharedRadio.Interrupt.Lemmas
import SharedRadio.Interrupt.Routine
import SharedRadio.Arbiter.Operation
import SharedRadio.Coexistence.Config
import SharedRadio.Coexistence.Statistics
import SharedRadio.Coexistence.Rig
import SharedRadio.Coexistence.Engine
import SharedRadio.Station
import SharedRadio.Scenario.Report
import SharedRadio.Proofs.Arbiter.Ownership
import SharedRadio.Proofs.Arbiter.Takeover
import SharedRadio.Proofs.Scenario.Runs
import SharedRadio.Proofs.Arbiter.Balance
import SharedRadio.Proofs.Arbiter.Eviction
import SharedRadio.Proofs.Registry.Ranking
import SharedRadio.Proofs.Station.Agreement
import SharedRadio.Proofs.Station.Watch
import SharedRadio.Proofs.Station.Transcript
import SharedRadio.Proofs.Signal.Cut
import SharedRadio.Proofs.Signal.Line
import SharedRadio.Proofs.Coexistence.Cut
import SharedRadio.Proofs.Arbiter.Stride
import SharedRadio.Proofs.Arbiter.Walk
import SharedRadio.Proofs.Arbiter.Offering
import SharedRadio.Proofs.Arbiter.Addressee
import SharedRadio.Proofs.Arbiter.Enrolment
import SharedRadio.Proofs.Arbiter.Dispossession
import SharedRadio.Proofs.Arbiter.Tour
import SharedRadio.Proofs.Station.Arbitration
import SharedRadio.Proofs.Arbiter.Effort
import SharedRadio.Proofs.Arbiter.Itinerary
import SharedRadio.Proofs.Arbiter.Succession
import SharedRadio.Proofs.Scenario.Ending
import SharedRadio.Proofs.Station.Interruption
import SharedRadio.Proofs.Coexistence.Counting
import SharedRadio.Proofs.Station.Conservation
import SharedRadio.Proofs.Coexistence.Failure
import SharedRadio.Proofs.Station.Failure
import SharedRadio.Proofs.Interrupt.Masking
import SharedRadio.Proofs.Coexistence.Endless
import SharedRadio.Proofs.Coexistence.Return
import SharedRadio.Proofs.Clock.Accuracy
import SharedRadio.Proofs.Station.Retreat
import SharedRadio.Proofs.Coexistence.Amendment
import SharedRadio.Proofs.Arbiter.Verdict
import SharedRadio.Proofs.Arbiter.Inquiry
import SharedRadio.Proofs.Station.Verdict
import SharedRadio.Proofs.Coexistence.Rest
import SharedRadio.Proofs.Station.Origin
import SharedRadio.Proofs.Station.Inertia
import SharedRadio.Proofs.Coexistence.Legs
import SharedRadio.Proofs.Coexistence.Resumption
import SharedRadio.Proofs.Station.Overlap
