import Supernova.BinaryFloat
import Supernova.LittleEndian
import Supernova.PubSubConfiguration
import Supernova.PubSubWire
import Supernova.Scanner
import Supernova.PubSubWireRoundTrip
import Supernova.PubSubWireBounds
import Supernova.PubSubWireFraming
import Supernova.QuasarThreadPool
import Supernova.ThreadPoolExclusion
import Supernova.FormulaElaboration
import Supernova.SourceVariableIoManager
import Supernova.FormulaTermination
import Supernova.CalculatedVariablesEngine
import Supernova.DepthFirst
import Supernova.CalculationGraph
import Supernova.Synchronization
import Supernova.OrderedMap
import Supernova.PubSubEngine
import Supernova.ReceiveDispatch
import Supernova.PubSubReceived
import Supernova.PubSubWirePrefix
import Supernova.PubSubValues
import Supernova.PubSubXsdBinding
import Supernova.PubSubPublishing
import Supernova.PubSubStart
import Supernova.PubSubEntities
import Supernova.PubSubFiltering
import Supernova.FormulaBinding
import Supernova.DecimalText
import Supernova.FxJson
import Supernova.FxJsonTermination
import Supernova.FxJsonGrammar
import Supernova.FxJsonNumbers
import Supernova.FxJsonAcceptance
import Supernova.FxJsonRoundTrip
import Supernova.FxConfiguration
import Supernova.FxEngine
import Supernova.FxConnections
import Supernova.FxRuns
import Supernova.PubSubOwners
import Supernova.FxEndpoints
import Supernova.FxRefusals
import Supernova.FxOwnership
import Supernova.FxStarted
import Supernova.FxCoordinates
import Supernova.Configurator
import Supernova.Forest
import Supernova.DeviceRegistration
import Supernova.DeviceRoot
import Supernova.DeviceMirror
import Supernova.FxInterleaving
import Supernova.FxSubscribers
import Supernova.FxIoThread
import Supernova.FxUninterrupted
import Supernova.FxStatus
import Supernova.FxProgress
import Supernova.FxTable
import Supernova.FxGrowth
import Supernova.ThreadPoolJobs
import Supernova.ThreadPoolLiveness
import Supernova.MethodCallCompletion
import Supernova.PubSubReceivers
import Supernova.AsyncOperations
import Supernova.PubSubIoThread
import Supernova.PubSubIoRefinement
import Supernova.PubSubIoSound
import Supernova.PubSubIoRuns
import Supernova.PubSubAdditions
import Supernova.PubSubRemoval
import Supernova.PubSubAddress
import Supernova.PubSubCoordinates
import Supernova.PubSubSequence
import Supernova.PubSubNetwork
import Supernova.PubSubValidity
import Supernova.PubSubFailedStart
import Supernova.PubSubFirstData
import Supernova.FxAutoNames
import Supernova.FxBuilds
import Supernova.FxUnsigned
import Supernova.CacheVariables
import Supernova.AddressSpaceVariables
import Supernova.CacheVariableWrites
import Supernova.DelegatedWrites
import Supernova.CacheVariableRuns
import Supernova.ContentOrderLoop
import Supernova.AddressSpaceLayout
import Supernova.AsyncSourceVariable
import Supernova.BackwardsCompatibility
import Supernova.ByDesignCycles
import Supernova.EscapedReferences
import Supernova.ExactPropagation
import Supernova.FreeVariables
import Supernova.InitialValueLiterals
import Supernova.NodeQueries
import Supernova.OptimizedRuns
import Supernova.ParentPointers
import Supernova.SourceVariableHandles
import Supernova.SourceVariableLocking
import Supernova.ArrayBounds
import Supernova.ConfigurationDecoration
import Supernova.ConfigurationSchema
import Supernova.DesignTexts
import Supernova.DeviceClassAnalyzer
import Supernova.InstallManifest
import Supernova.ReleasedProject
import Supernova.MarkedPieces
import Supernova.OverrideDeclarations
import Supernova.ParentAddresses
import Supernova.ReleaseManifest
