import LtlFuzz.Logic.PastLTL
import LtlFuzz.Logic.Run
import LtlFuzz.Logic.Elementwise
import LtlFuzz.Logic.MaximalMunch
import LtlFuzz.Logic.Blocks
import LtlFuzz.Text.Numbers
import LtlFuzz.Text.Letters
import LtlFuzz.Text.Words
import LtlFuzz.Text.Lines
import LtlFuzz.Monitor.Ast
import LtlFuzz.Monitor.Preprocess
import LtlFuzz.Monitor.BitVector
import LtlFuzz.Monitor.TypeChecker
import LtlFuzz.Monitor.State
import LtlFuzz.Monitor.Evaluator
import LtlFuzz.Monitor.PastTime
import LtlFuzz.Monitor.Yesterday
import LtlFuzz.Monitor.Soundness
import LtlFuzz.Monitor.IntegerComparison
import LtlFuzz.Monitor.Lexer
import LtlFuzz.Monitor.Main
import LtlFuzz.Monitor.Snapshots
import LtlFuzz.Monitor.Rules
import LtlFuzz.Monitor.ViolationLog
import LtlFuzz.Monitor.VerdictOrder
import LtlFuzz.Monitor.Numbering
import LtlFuzz.Logic.Heap
import LtlFuzz.Monitor.BitVectorMemory
import LtlFuzz.Monitor.VectorStore
import LtlFuzz.Bridge.MonitorBridge
import LtlFuzz.Bridge.Delivery
import LtlFuzz.Fuzzer.Attribution
import LtlFuzz.Adapter.PredicateLine
import LtlFuzz.Adapter.Conformance
import LtlFuzz.Adapter.Ftp
import LtlFuzz.Adapter.Dtls
import LtlFuzz.Adapter.DtlsDirections
import LtlFuzz.Adapter.Dnsmasq
import LtlFuzz.Adapter.Rtsp
import LtlFuzz.Adapter.Shipped
import LtlFuzz.Adapter.Ssh
import LtlFuzz.Adapter.Sip
import LtlFuzz.Adapter.SessionProtocols
import LtlFuzz.Adapter.Replies
import LtlFuzz.Adapter.DtlsRules
import LtlFuzz.Adapter.DtlsSessions
import LtlFuzz.Adapter.View
import LtlFuzz.Adapter.Memory
import LtlFuzz.Fuzzer.Isolation
import LtlFuzz.Adapter.Resumption
import LtlFuzz.Fuzzer.SnapshotPath
import LtlFuzz.Replay.FtpTrace
import LtlFuzz.Replay.DtlsViolations
import LtlFuzz.Logic.AssertionStack
import LtlFuzz.Logic.CycleSearch
import LtlFuzz.Logic.SmtTerm
import LtlFuzz.PacketGen.Ast
import LtlFuzz.PacketGen.Dpll
import LtlFuzz.PacketGen.SolverStack
import LtlFuzz.PacketGen.DpllTrees
import LtlFuzz.PacketGen.ConstraintMeaning
import LtlFuzz.PacketGen.DpllShape
import LtlFuzz.PacketGen.DpllGrowth
import LtlFuzz.PacketGen.DpllInvariant
import LtlFuzz.PacketGen.DpllSoundness
import LtlFuzz.PacketGen.TopologicalSort
import LtlFuzz.PacketGen.SyntaxChecker
import LtlFuzz.PacketGen.SyntaxSoundness
import LtlFuzz.PacketGen.CircularDeps
import LtlFuzz.PacketGen.ComputeDeps
import LtlFuzz.PacketGen.CheckSygusAst
import LtlFuzz.PacketGen.TypeChecker
import LtlFuzz.PacketGen.Sygus
import LtlFuzz.PacketGen.SygusMeaning
import LtlFuzz.PacketGen.MergeOverlapping
import LtlFuzz.PacketGen.MutationOps
import LtlFuzz.PacketGen.MutationSafety
import LtlFuzz.PacketGen.CrossoverSafety
import LtlFuzz.Logic.Reachability
import LtlFuzz.PacketGen.AbstractDeps
import LtlFuzz.PacketGen.Completion
import LtlFuzz.PacketGen.DependentTerms
import LtlFuzz.Logic.Outcomes
import LtlFuzz.PacketGen.DependencyTermination
import LtlFuzz.PacketGen.NonterminalReferences
import LtlFuzz.PacketGen.DeadRules
import LtlFuzz.PacketGen.SygusBytes
import LtlFuzz.Driver.OracleParser
import LtlFuzz.Driver.Containers
import LtlFuzz.Driver.Replacement
import LtlFuzz.Driver.ConfirmFrame
import LtlFuzz.Driver.TraceFormat
import LtlFuzz.Driver.KeyAgreement
import LtlFuzz.PacketGen.FuzzingIteration
import LtlFuzz.PacketGen.Recombination
import LtlFuzz.PacketGen.BitVectors
import LtlFuzz.Logic.SortUniq
import LtlFuzz.Logic.SearchTree
import LtlFuzz.PacketGen.Population
import LtlFuzz.PacketGen.MutationEffects
import LtlFuzz.PacketGen.Parallelism
import LtlFuzz.PacketGen.ByteParser
import LtlFuzz.Driver.RejectedGroups
import LtlFuzz.Driver.ApFrames
import LtlFuzz.Driver.PredicateTransformer
import LtlFuzz.Driver.OracleVerdicts
import LtlFuzz.Driver.Station
import LtlFuzz.Driver.TraceRun
import LtlFuzz.Driver.Bookkeeping
import LtlFuzz.Driver.ConfirmVerdicts
import LtlFuzz.Driver.FrameDispatch
import LtlFuzz.Driver.KeyDerivation
import LtlFuzz.Driver.Salt
import LtlFuzz.Driver.RequestClassification
import LtlFuzz.Logic.SimplifiedSwu
import LtlFuzz.Driver.Sswu
import LtlFuzz.Adapter.RtspTracking
import LtlFuzz.Adapter.SipHeaders
import LtlFuzz.Adapter.SipRequests
import LtlFuzz.Adapter.SipDialog
import LtlFuzz.Adapter.FtpSessions
import LtlFuzz.Adapter.FtpReplies
import LtlFuzz.Adapter.DnsmasqQueries
import LtlFuzz.Adapter.SshLengths
import LtlFuzz.Logic.Chains
import LtlFuzz.Resolver.DnsNames
import LtlFuzz.Resolver.DnsWire
import LtlFuzz.Resolver.WireExactness
import LtlFuzz.Resolver.NameText
import LtlFuzz.Resolver.CnameLoops
import LtlFuzz.Resolver.Bailiwick
import LtlFuzz.Resolver.QueryParser
import LtlFuzz.Logic.Novelty
import LtlFuzz.Fuzzer.Coverage
import LtlFuzz.Fuzzer.Retention
import LtlFuzz.Fuzzer.Favored
import LtlFuzz.Logic.Tiling
import LtlFuzz.Fuzzer.Regions
import LtlFuzz.Fuzzer.SeedFiles
import LtlFuzz.Logic.LinkedList
import LtlFuzz.Fuzzer.MessageList
import LtlFuzz.Logic.Reader
import LtlFuzz.Fuzzer.ResponseCodes
import LtlFuzz.Fuzzer.StateTable
import LtlFuzz.Fuzzer.StateGraph
import LtlFuzz.Fuzzer.RegionChoice
