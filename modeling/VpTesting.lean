import VpTesting.AbortedReceive
import VpTesting.Attachments
import VpTesting.BlockLocations
import VpTesting.ClientDescriptors
import VpTesting.ControlCommands
import VpTesting.CoverageCampaigns
import VpTesting.EventSemaphore
import VpTesting.FailedReceive
import VpTesting.IntegerCodecs
import VpTesting.MqAddressing
import VpTesting.MqAgreement
import VpTesting.PayloadBounds
import VpTesting.PayloadReception
import VpTesting.PipeClearing
import VpTesting.PipeLaunches
import VpTesting.PipeResponses
import VpTesting.QueueClearing
import VpTesting.QueueLaunches
import VpTesting.ReceiverHeap
import VpTesting.RequestDeadlock
import VpTesting.ResponseBuffers
import VpTesting.StatusCause
import VpTesting.TransitionDirection
import VpTesting.UninitializedMemory
