import ModelStreamer.Lib.TransitionSystem
import ModelStreamer.Planning.Lossless
import ModelStreamer.Delivery.Ledger
import ModelStreamer.Delivery.Submit
import ModelStreamer.ObjectStorage.Sound
import ModelStreamer.Safetensors.EntryOrder
import ModelStreamer.Distributed.Partition
import ModelStreamer.FileStreamer.Lifetime
import ModelStreamer.Distributed.Agreement
import ModelStreamer.Distributed.Rounds
import ModelStreamer.ObjectStorage.Issue
import ModelStreamer.Filesystem.Execute
import ModelStreamer.ObjectStorage.ZeroSized
import ModelStreamer.ModelCache.Complete
import ModelStreamer.Planning.Merged
import ModelStreamer.Distributed.Coalescing
import ModelStreamer.Pools.PluginLock
import ModelStreamer.Pools.Shutdown
import ModelStreamer.Common.QueueSteps
import ModelStreamer.Delivery.Expected
import ModelStreamer.Delivery.Unwrapped
import ModelStreamer.Delivery.Backends
import ModelStreamer.Delivery.Traces
import ModelStreamer.ObjectStorage.Truthful
import ModelStreamer.Delivery.Dispatch
import ModelStreamer.ObjectStorage.NoneLost
import ModelStreamer.Distributed.Balance
import ModelStreamer.Clients.ReadStream
import ModelStreamer.Clients.SplitClient
import ModelStreamer.Clients.Ownership
import ModelStreamer.ObjectStorage.CapacityWorker
import ModelStreamer.ObjectStorage.CapacityQueue
import ModelStreamer.ModelCache.Download
import ModelStreamer.FileStreamer.Marshal
import ModelStreamer.FileStreamer.SourceTypes
import ModelStreamer.FileStreamer.Ready
import ModelStreamer.Distributed.Layout
import ModelStreamer.Filesystem.Bytes
import ModelStreamer.Filesystem.Consumer
import ModelStreamer.Safetensors.Files
import ModelStreamer.Listing.Files
import ModelStreamer.FileStreamer.ObjectStore
import ModelStreamer.Distributed.Bytes
import ModelStreamer.ObjectStorage.Fetched
import ModelStreamer.Clients.CacheProvider
