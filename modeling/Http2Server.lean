import Http2Server.Frame
import Http2Server.Hpack.RoundTrip
import Http2Server.Response
import Http2Server.Settings
import Http2Server.Files
import Http2Server.WebBinder
import Http2Server.FrameHandler
import Http2Server.Requests
import Http2Server.OkResponse
import Http2Server.HeaderBlocks
import Http2Server.Fragments
import Http2Server.Uploads
import Http2Server.OneResponse
import Http2Server.Confinement
import Http2Server.Resources
import Http2Server.Lib.Blocks
import Http2Server.Wire
import Http2Server.Client
import Http2Server.Segmentation
import Http2Server.SettingsExchange
import Http2Server.PeerSettings
import Http2Server.Acknowledgements
import Http2Server.FrameSizes
import Http2Server.PartialWrites
import Http2Server.Aborts
import Http2Server.Hpack.TableBound
import Http2Server.Hpack.TableSync
import Http2Server.Hpack.Lookups
import Http2Server.ClientManager
import Http2Server.Epoller
import Http2Server.ThreadPool
import Http2Server.SendOrder
import Http2Server.ClientStates
import Http2Server.FrameLayout
import Http2Server.WholeFrames
import Http2Server.DecodeAccesses
import Http2Server.Hpack.IntegerRange
import Http2Server.Hpack.TableRuns
import Http2Server.Hpack.BestMatch
import Http2Server.Hpack.Indexing
import Http2Server.Priorities
import Http2Server.SettingsDecoding
import Http2Server.LeftOver
import Http2Server.ResponseFrames
import Http2Server.HeaderReplacement
import Http2Server.Bindings
import Http2Server.Links
import Http2Server.StaleFields
import Http2Server.StreamMap
import Http2Server.Isolation
import Http2Server.Departures
import Http2Server.Crashes
import Http2Server.Submissions
import Http2Server.Conversation
import Http2Server.Service
import Http2Server.OwnStream
import Http2Server.Unheeded
import Http2Server.Weights
import Http2Server.Memory
import Http2Server.HeaderMemory
import Http2Server.FirstPath
import Http2Server.Understanding
import Http2Server.UrlPrefixes
import Http2Server.Lib.Settling
import Http2Server.Signals
import Http2Server.Returns
import Http2Server.Hpack.Composition
import Http2Server.Hpack.Language
import Http2Server.Hpack.Expansion
import Http2Server.OneContext
import Http2Server.HeaderFields
import Http2Server.Lib.Since
import Http2Server.TakesData
import Http2Server.KnownStreams
