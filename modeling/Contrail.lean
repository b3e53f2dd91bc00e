import Contrail.Lib.ThreeWay
import Contrail.Lib.Bytes
import Contrail.Bgp.AsPath
import Contrail.Bgp.Path
import Contrail.Bgp.PathOrder
import Contrail.Bgp.Capability
import Contrail.Bgp.AttrCodec
import Contrail.Lib.KeyedList
import Contrail.Base.Task
import Contrail.Base.TaskMachine
import Contrail.Base.TaskExclusion
import Contrail.Base.TaskDeferKey
import Contrail.Base.TaskQueues
import Contrail.Base.TaskSettle
import Contrail.Base.WorkQueue
import Contrail.Base.WorkQueueSafety
import Contrail.Lib.ListCount
import Contrail.Db.TablePartition
import Contrail.Db.TablePartitionSafety
import Contrail.Lib.ListOrder
import Contrail.Bgp.UpdateQueue
import Contrail.Bgp.RibOutUpdates
import Contrail.Bgp.UpdateQueueLayout
import Contrail.Bgp.DequeueCommon
import Contrail.Bgp.UpdateQueueSafety
import Contrail.Bgp.DequeueFuel
import Contrail.Bgp.PeerCloseManager
import Contrail.Bgp.PeerCloseSafety
import Contrail.Bgp.StateMachine
import Contrail.Bgp.StateMachineSessions
import Contrail.Xmpp.StateMachine
import Contrail.Xmpp.StateMachineSafety
import Contrail.Bgp.Evpn.Prefix
import Contrail.Bgp.Evpn.PrefixLayout
import Contrail.Bgp.Evpn.PrefixRoundTrip
import Contrail.Base.WaterMark
import Contrail.Lib.BitScan
import Contrail.Lib.WordBits
import Contrail.Base.BitSet
import Contrail.Base.BitSetSemantics
import Contrail.Base.BitSetSearch
import Contrail.Base.Allocators
import Contrail.Bgp.AttrDB
import Contrail.Base.Timer
import Contrail.Base.Proto
import Contrail.Bgp.MessageEncode
import Contrail.Bgp.UpdateQueueCount
import Contrail.Bgp.AdvertiseHistory
import Contrail.Lib.SortedMerge
import Contrail.Base.SetUtil
import Contrail.Base.StringUtil
import Contrail.Base.BitSetString
import Contrail.Lib.CanonicalList
import Contrail.Bgp.Community
import Contrail.Lib.CText
import Contrail.Lib.InetText
import Contrail.Bgp.Evpn.FieldText
import Contrail.Bgp.Evpn.RdText
import Contrail.Bgp.Evpn.EsiText
import Contrail.Lib.Radix
import Contrail.Bgp.Evpn.SubnetText
import Contrail.Bgp.Evpn.PrefixText
