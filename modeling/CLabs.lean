import CLabs.Lib.Loop
import CLabs.Lib.MachineInt
import CLabs.Lib.OrdMap
import CLabs.Lib.Run
import CLabs.Lib.Slice
import CLabs.Sniffer.Http
import CLabs.Sniffer.Text
import CLabs.Tcp.Delivery
import CLabs.Tcp.EraseBounds
import CLabs.Tcp.Follower
import CLabs.Tcp.Isolation
import CLabs.Tcp.LifeCycle
import CLabs.Tcp.Reassembly
import CLabs.Tcp.SeqNumbers
import CLabs.Tcp.Stream
import CLabs.Sniffer.Sessions
import CLabs.Sniffer.Stats
import CLabs.Tcp.InOrder
import CLabs.Sniffer.Segmentation
import CLabs.Bst.Heap
import CLabs.Bst.Refinement
import CLabs.Tcp.Ownership
import CLabs.Tcp.Flags
import CLabs.Sniffer.Counting
import CLabs.Tcp.Growth
import CLabs.Hash.Table
import CLabs.Geo.Geohash
import CLabs.Geo.Rgeohash
import CLabs.Geo.Strings
import CLabs.Hash.Store
import CLabs.Bst.Shape
import CLabs.Bst.Placement
import CLabs.Sniffer.Records
import CLabs.Sniffer.Expiry
import CLabs.Sniffer.Ids
import CLabs.Sniffer.Base64
import CLabs.Lib.Memory
import CLabs.Client.DoRead
import CLabs.Lib.CString
import CLabs.Server.StringFormat
import CLabs.Srt.Format
import CLabs.Lib.TextEdit
import CLabs.Srt.Tags
import CLabs.Srt.Convert
import CLabs.Lib.OnesComplement
import CLabs.Netfilter.Hooks
import CLabs.Netfilter.Frame
import CLabs.Netfilter.Checksums
import CLabs.Lib.Greedy
import CLabs.Roman.Numerals
import CLabs.Srt.Main
import CLabs.Tcp.SerialNumbers
import CLabs.Lib.Ring
import CLabs.Lib.XorShift
import CLabs.Ordering.MersenneTwister
import CLabs.Lib.StoreBuffer
import CLabs.Ordering.Experiment
import CLabs.Ordering.Reorder
import CLabs.Geo.Neighbors
import CLabs.Geo.Radius
import CLabs.Lib.Lock
import CLabs.Sniffer.Signals
import CLabs.Client.Echo
import CLabs.Mill.Greeter
import CLabs.Thrift.Calculator
import CLabs.Tcp.Copies
import CLabs.Thrift.Ports
import CLabs.Hash.Capacity
import CLabs.Lib.Lanes
import CLabs.Ordering.Seeds
import CLabs.Sniffer.Cuts
