import QuantumPlatform.Process.Monitor
import QuantumPlatform.Process.Run
import QuantumPlatform.Orchestrator.Worker
import QuantumPlatform.Api.Consumer
import QuantumPlatform.Api.Consumer.Theorems
import QuantumPlatform.Api.Consumer.Conservation
import QuantumPlatform.Orchestrator.Polling.Theorems
import QuantumPlatform.Orchestrator.Execution.Lemmas
import QuantumPlatform.Orchestrator.Delivery
import QuantumPlatform.Orchestrator.Delivery.Theorems
import QuantumPlatform.Broker
import QuantumPlatform.Broker.Theorems
import QuantumPlatform.Broker.Headers
import QuantumPlatform.Broker.Coverage
import QuantumPlatform.Broker.Redelivery
import QuantumPlatform.Broker.Schedules
import QuantumPlatform.Platform
import QuantumPlatform.Platform.Theorems
import QuantumPlatform.Orchestrator.Log
import QuantumPlatform.Orchestrator.Log.Theorems
import QuantumPlatform.Orchestrator.Probe
import QuantumPlatform.Orchestrator.Probe.Theorems
import QuantumPlatform.Orchestrator.Failures
import QuantumPlatform.Orchestrator.Failures.Theorems
import QuantumPlatform.Orchestrator.Cancellation
import QuantumPlatform.Orchestrator.Clock.Theorems
import QuantumPlatform.Orchestrator.Cancellation.Theorems
import QuantumPlatform.Orchestrator.Breaker
import QuantumPlatform.Orchestrator.Breaker.Theorems
import QuantumPlatform.Orchestrator.Protocol
import QuantumPlatform.Orchestrator.Protocol.Theorems
import QuantumPlatform.Orchestrator.Trigger
import QuantumPlatform.Orchestrator.Trigger.Theorems
import QuantumPlatform.Core.Jobs
import QuantumPlatform.Core.Jobs.Theorems
import QuantumPlatform.Orchestrator.Snapshot
import QuantumPlatform.Orchestrator.Snapshot.Theorems
import QuantumPlatform.Orchestrator.Protection
import QuantumPlatform.Orchestrator.Protection.Theorems
import QuantumPlatform.Broker.Reports
import QuantumPlatform.Platform.Exchange
import QuantumPlatform.Platform.Exchange.Theorems
import QuantumPlatform.Broker.Script
import QuantumPlatform.Broker.Outcome
import QuantumPlatform.Broker.Outcome.Theorems
import QuantumPlatform.Orchestrator.Course
import QuantumPlatform.Orchestrator.Course.Theorems
import QuantumPlatform.Broker.Journal
import QuantumPlatform.Broker.Journal.Theorems
import QuantumPlatform.Process.Windows
import QuantumPlatform.Stream.Alerting
import QuantumPlatform.Stream.Drift
import QuantumPlatform.Stream.FaustApp
import QuantumPlatform.Stream.Alerting.Lemmas
import QuantumPlatform.Stream.FaustApp.Metrics
import QuantumPlatform.Stream.FaustApp.Metrics.Theorems
import QuantumPlatform.Stream.FaustApp.Alerts
import QuantumPlatform.Stream.FaustApp.Alerts.Theorems
import QuantumPlatform.Quantum.Basis
import QuantumPlatform.Quantum.States
import QuantumPlatform.Quantum.Products
import QuantumPlatform.Core.Semantics
import QuantumPlatform.Core.Fourier
import QuantumPlatform.Core.Fourier.Theorems
import QuantumPlatform.Core.PhaseEstimation
import QuantumPlatform.Orchestrator.Execution.Readout
import QuantumPlatform.Core.Amplification
import QuantumPlatform.Core.Amplification.Theorems
import QuantumPlatform.Core.Expectation
import QuantumPlatform.Core.Energy
import QuantumPlatform.Orchestrator.Execution.Energy
import QuantumPlatform.Indexer.Canonical
import QuantumPlatform.Process.Replay
import QuantumPlatform.Indexer.Repository
import QuantumPlatform.Indexer.Worker
import QuantumPlatform.Indexer.Worker.Theorems
import QuantumPlatform.Api.Similarity
import QuantumPlatform.Api.Similarity.Theorems
import QuantumPlatform.Sql.Listing
import QuantumPlatform.Api.Store
import QuantumPlatform.Api.Store.Theorems
import QuantumPlatform.Core.Ansatz
import QuantumPlatform.Core.Amplification.Oracle
import QuantumPlatform.Core.Iterations
import QuantumPlatform.Core.Expressions
import QuantumPlatform.Core.Expressions.Theorems
import QuantumPlatform.Core.Satisfiability
import QuantumPlatform.Orchestrator.Execution.Search
import QuantumPlatform.Core.Estimates
import QuantumPlatform.Core.Labels
import QuantumPlatform.Orchestrator.Execution.Counts
import QuantumPlatform.Orchestrator.Polling.Ledger
import QuantumPlatform.Orchestrator.Polling.Accounting
import QuantumPlatform.Orchestrator.Polling.Schedule
import QuantumPlatform.Orchestrator.Polling.Retries
import QuantumPlatform.Orchestrator.Execution.Metrics
import QuantumPlatform.Indexer.Projection
import QuantumPlatform.Process.Keyed
import QuantumPlatform.Python.DefaultDict
import QuantumPlatform.Stream.Alerting.Trace
import QuantumPlatform.Stream.Alerting.Tracker
import QuantumPlatform.Stream.FaustApp.Agreement
import QuantumPlatform.Statistics.Deviations
import QuantumPlatform.Stream.Drift.Theorems
import QuantumPlatform.Stream.FaustApp.Drift
import QuantumPlatform.Python.Deque
import QuantumPlatform.Stream.Rolling
import QuantumPlatform.Stream.Rolling.Theorems
import QuantumPlatform.Python.Compare
import QuantumPlatform.Python.Dumps
import QuantumPlatform.Python.Reordering
import QuantumPlatform.Indexer.Text
import QuantumPlatform.Indexer.Lines
import QuantumPlatform.Orchestrator.Calibration.Demo
import QuantumPlatform.Python.Finally
import QuantumPlatform.Stream.Consumer
import QuantumPlatform.Stream.Consumer.Theorems
import QuantumPlatform.Platform.Telemetry
import QuantumPlatform.Platform.Telemetry.Theorems
import QuantumPlatform.Stream.FaustApp.Dashboard
import QuantumPlatform.Stream.FaustApp.Dashboard.Theorems
import QuantumPlatform.Core.Amplification.Success
import QuantumPlatform.Orchestrator.Execution.Success
import QuantumPlatform.Core.PhaseEstimation.Accuracy
import QuantumPlatform.Orchestrator.Execution.Accuracy
import QuantumPlatform.Orchestrator.Execution.Evidence
import QuantumPlatform.Platform.Fulfilment
import QuantumPlatform.Broker.Provenance
import QuantumPlatform.Platform.Exchange.Fulfilment
import QuantumPlatform.Broker.Rest
import QuantumPlatform.Platform.Rest
import QuantumPlatform.Core.Sampling
import QuantumPlatform.Orchestrator.Execution.Sampling
import QuantumPlatform.Orchestrator.Execution.Adaptive
