import EdgeNetSwitch.Threads.Proofs.ProgramProofs
import EdgeNetSwitch.Switching.Proofs.MacTableProofs
import EdgeNetSwitch.Switching.Proofs.SwitchForwardingEngineProofs
import EdgeNetSwitch.Worker.Proofs.QueueWorkerProofs
import EdgeNetSwitch.System.Proofs.EpollEventLoopProofs
import EdgeNetSwitch.Packet.Proofs.StatsThreadsProofs
import EdgeNetSwitch.Failure.Proofs.FailureScheduleProofs
import EdgeNetSwitch.Switching.Proofs.AgingAndEvictionProofs
import EdgeNetSwitch.Network.Proofs.UdpIngressProofs
import EdgeNetSwitch.Packet.Proofs.PacketParserProofs
import EdgeNetSwitch.Control.Proofs.PacketStatsReportProofs
import EdgeNetSwitch.Control.Proofs.ControlServerProofs
import EdgeNetSwitch.Replay.Replay
import EdgeNetSwitch.Transport.TransportManager
import EdgeNetSwitch.Daemon.Proofs.ConservationProofs
import EdgeNetSwitch.Daemon.Proofs.LifecycleIdProofs
import EdgeNetSwitch.Daemon.Proofs.TeardownProofs
import EdgeNetSwitch.Daemon.Proofs.ReplayProofs
import EdgeNetSwitch.Daemon.Proofs.ForwardingProofs
import EdgeNetSwitch.Daemon.Proofs.SequenceNumbersProofs
import EdgeNetSwitch.Daemon.Proofs.ReplayStatsProofs
import EdgeNetSwitch.Telemetry.Proofs.TelemetryExportManagerProofs
import EdgeNetSwitch.System.Proofs.FileDescriptorProofs
import EdgeNetSwitch.Messaging.Proofs.MessagingBusProofs
import EdgeNetSwitch.Packet.Proofs.LatencyFiguresProofs
import EdgeNetSwitch.Telemetry.Proofs.WindowedEwmaRateSmootherProofs
import EdgeNetSwitch.Health.Proofs.HealthMonitorProofs
import EdgeNetSwitch.Transport.Proofs.PortBackendProofs
import EdgeNetSwitch.Daemon.Proofs.TransmitCallsProofs
import EdgeNetSwitch.Daemon.Proofs.BacklogProofs
import EdgeNetSwitch.Switching.Proofs.MacTextProofs
import EdgeNetSwitch.Control.Proofs.ClassificationProofs
import EdgeNetSwitch.Daemon.Proofs.SnapshotThreadsProofs
import EdgeNetSwitch.Core.Proofs.ConfigLoaderProofs
import EdgeNetSwitch.Control.Proofs.MacTableReportProofs
import EdgeNetSwitch.Control.Proofs.ConfigReportProofs
import EdgeNetSwitch.Control.Proofs.ControlClientProofs
import EdgeNetSwitch.Daemon.Proofs.SequentialWorkerProofs
import EdgeNetSwitch.Daemon.Proofs.ShutdownProofs
import EdgeNetSwitch.Daemon.Proofs.TickLogProofs
import EdgeNetSwitch.Daemon.Proofs.BridgingProofs
import EdgeNetSwitch.Daemon.Proofs.PublishedRatesProofs
import EdgeNetSwitch.Daemon.Proofs.EpollServiceProofs
