import PktDrop.Basic
import PktDrop.Tree
import PktDrop.FlowBuckets
import PktDrop.Classify
import PktDrop.Key
import PktDrop.Store
import PktDrop.Pipeline
import PktDrop.Report
import PktDrop.Run
import PktDrop.Timing
import PktDrop.FlowGroup
import PktDrop.Machine
import PktDrop.Counting
import PktDrop.Aging
import PktDrop.Lifetime
import PktDrop.CycleCounts
import PktDrop.Options
import PktDrop.Program
import PktDrop.NetRxAction
