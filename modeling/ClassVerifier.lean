import ClassVerifier.ClassFile.Load
import ClassVerifier.Proofs.CreationSites
import ClassVerifier.Proofs.Faults
import ClassVerifier.Proofs.FrameShape
import ClassVerifier.Proofs.InstructionLengths
import ClassVerifier.Proofs.ReceiverInitialization
import ClassVerifier.Session
import ClassVerifier.Proofs.OrderlySteps
import ClassVerifier.Proofs.DecodedFrames
import ClassVerifier.Proofs.RepresentedSteps
import ClassVerifier.Proofs.Positions
import ClassVerifier.Proofs.FrameRepresentation
import ClassVerifier.Proofs.ExpectedFaults
import ClassVerifier.Proofs.StackMapOrder
import ClassVerifier.Proofs.NoInternalFailure
import ClassVerifier.Proofs.Assignability
import ClassVerifier.Proofs.FrameOrder
import ClassVerifier.Proofs.MonotoneSteps
import ClassVerifier.Proofs.Monotonicity
import ClassVerifier.Proofs.UnprotectedInitialization
import ClassVerifier.Proofs.SearchableFrames
import ClassVerifier.Proofs.FullFrames
import ClassVerifier.Proofs.UninitializedUse
import ClassVerifier.Proofs.MethodIndependence
import ClassVerifier.Proofs.SettledResults
import ClassVerifier.Proofs.SimulatedWalks
import ClassVerifier.Proofs.FewerHandlers
import ClassVerifier.Proofs.WidenedFrames
import ClassVerifier.Proofs.RaisedLimits
import ClassVerifier.Proofs.ArrayTypes
import ClassVerifier.Proofs.ResolverQueries
import ClassVerifier.Proofs.TransitiveAssignability
import ClassVerifier.Proofs.Explorations
import ClassVerifier.Proofs.SwitchLayout
import ClassVerifier.Proofs.StackShuffles
import ClassVerifier.Proofs.LocalEncodings
import ClassVerifier.Proofs.BodyLayout
import ClassVerifier.Proofs.PoolCounter
import ClassVerifier.Proofs.HandlerPositions
import ClassVerifier.Proofs.InstructionHeaders
import ClassVerifier.Proofs.SuperclassChains
import ClassVerifier.Proofs.ListedStarts
