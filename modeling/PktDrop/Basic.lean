import Mathlib.Data.String.Basic
import Mathlib.Data.Vector.Defs
import Mathlib.Data.Fintype.Basic
import Mathlib.Order.Basic

/-! Data model of the drop monitor in pktdrop.c: histogram modes and buckets, the flow and perf
sample records, and the collaborators (kernel symbols, packet parser), by the fields the program
reads. The target is little-endian, with 64-bit unsigned long. -/
namespace PktDrop

/-- unsigned long compares by value, which makes it a linear order. -/
instance linearOrderUInt64 : LinearOrder UInt64 where
  le := (· ≤ ·)
  lt := (· < ·)
  le_refl a := Nat.le_refl a.toNat
  le_trans _ _ _ := Nat.le_trans
  lt_iff_le_not_le _ _ := Nat.lt_iff_le_not_le
  le_antisymm _ _ h1 h2 := UInt64.toNat.inj (Nat.le_antisymm h1 h2)
  le_total a b := Nat.le_total a.toNat b.toNat
  decidableLE := inferInstance

/-- The grouping modes (HIST_BY_*); none means no histogram, one line per sample. -/
inductive HistBy
  | none | netns | dmac | smac | dip | sip | flow
  deriving DecidableEq, Repr

/-- The histogram buckets HIST_LLDP .. HIST_OTHER, in the order of the enum. -/
inductive Hist
  | lldp | arp | arpReq | arpReply | arpOther | ipv4 | ipv6
  | tcp | tcpSyn | tcpRst | tcpFin | udp | vrrp | other
  deriving DecidableEq, Repr

namespace Hist

/-- The loops for (i = 0; i < HIST_MAX; i++) visit the buckets in this order. -/
def all : List Hist :=
  [lldp, arp, arpReq, arpReply, arpOther, ipv4, ipv6, tcp, tcpSyn, tcpRst, tcpFin, udp, vrrp, other]

theorem mem_all (h : Hist) : h ∈ all := by cases h <;> decide

/-- hist_desc[].str, the column headers. -/
def str : Hist → String
  | lldp => "LLDP" | arp => "ARP" | arpReq => "ARP req" | arpReply => "ARP reply"
  | arpOther => "ARP other" | ipv4 => "IPv4" | ipv6 => "IPv6" | tcp => "TCP"
  | tcpSyn => "TCP syn" | tcpRst => "TCP reset" | tcpFin => "TCP fin" | udp => "UDP"
  | vrrp => "VRRP" | other => "other"

end Hist

instance : Fintype Hist := ⟨⟨Hist.all, by decide⟩, Hist.mem_all⟩

/-- hist_disable_non_ipv4: the buckets hidden in dip and sip mode. -/
def histDisableNonIpv4 (h : Hist) : Bool :=
  h = .lldp || h = .arp || h = .arpReq || h = .arpReply || h = .arpOther || h = .ipv6

/-- MAX_FLOW_ENTRIES and the other constants keep their C values. -/
def maxFlowEntries : UInt8 := 25
def pktTypeMax : UInt8 := 7

def ethPIp : UInt16 := 0x0800
def ethPArp : UInt16 := 0x0806
def ethPIpv6 : UInt16 := 0x86DD
def ethPLldp : UInt16 := 0x88CC
def arpopRequest : UInt16 := 1
def arpopReply : UInt16 := 2
def ipprotoTcp : UInt8 := 6
def ipprotoUdp : UInt8 := 17
def ipprotoVrrp : UInt8 := 112

/-- A MAC address, __u8[ETH_ALEN]. -/
abbrev Mac := Mathlib.Vector UInt8 6

/-- struct flow_tcp: the ports and the flags the classifier reads. -/
structure FlowTcp where
  sport : UInt16
  dport : UInt16
  syn : Bool
  rst : Bool
  fin : Bool
  deriving DecidableEq, Repr

/-- struct flow_transport. -/
structure FlowTransport where
  proto : UInt8
  tcp : FlowTcp
  deriving DecidableEq, Repr

/-- struct flow_ip4; the addresses are kept as stored, in network byte order. -/
structure FlowIp4 where
  saddr : UInt32
  daddr : UInt32
  trans : FlowTransport
  deriving DecidableEq, Repr

/-- struct flow_ip6. -/
structure FlowIp6 where
  saddr : Mathlib.Vector UInt8 16
  daddr : Mathlib.Vector UInt8 16
  trans : FlowTransport
  deriving DecidableEq

/-- struct flow_arp. -/
structure FlowArp where
  op : UInt16
  deriving DecidableEq, Repr

/-- struct flow, filled by parse_pkt. Two flows are memcmp-equal iff they are equal here. -/
structure Flow where
  hasVlan : Bool
  outerVlanTCI : UInt16
  dmac : Mac
  smac : Mac
  proto : UInt16
  arp : FlowArp
  ip4 : FlowIp4
  ip6 : FlowIp6
  deriving DecidableEq

/-- The zeroed transport part of a flow. -/
def FlowTransport.zero : FlowTransport := ⟨0, ⟨0, 0, false, false, false⟩⟩

/-- struct flow fl = {}: every field zero. -/
def Flow.zero : Flow :=
  ⟨false, 0, .replicate 6 0, .replicate 6 0, 0, ⟨0⟩, ⟨0, 0, .zero⟩,
    ⟨.replicate 16 0, .replicate 16 0, .zero⟩⟩

/-- struct ksym_s, as find_ksym returns it. -/
structure Ksym where
  addr : UInt64
  name : String
  isUnix : Bool
  isTcp : Bool
  deriving DecidableEq, Repr

/-- data->event_type: EVENT_SAMPLE, EVENT_EXIT, or any other value. -/
inductive EventType
  | sample | exit | other
  deriving DecidableEq, Repr

/-- struct data, one perf record; cap is sizeof(data->pkt_data). -/
structure Data (cap : ℕ) where
  eventType : EventType
  location : UInt64
  netns : UInt64
  pktType : UInt8
  pktLen : UInt32
  protocol : UInt16
  vlanTci : UInt16
  pktData : Mathlib.Vector UInt8 cap

/-- The arguments of one parse_pkt call: the flow it starts from, the protocol, the captured
bytes and the length it may read. -/
structure ParseReq (cap : ℕ) where
  flow : Flow
  protocol : UInt16
  pktData : Mathlib.Vector UInt8 cap
  len : UInt32

/-- The collaborators outside the core: the kernel symbol table and the packet parser. -/
structure Env (cap : ℕ) where
  findKsym : UInt64 → Option Ksym
  parsePkt : ParseReq cap → Option Flow

/-- The outcome of each calloc a sample may make: in find_dropl, new_droph and process_flow. -/
structure Alloc where
  dropl : Bool
  droph : Bool
  flowEntry : Bool
  deriving DecidableEq, Repr

/-- Every allocation of the sample succeeds. -/
def Alloc.ok : Alloc := ⟨true,true,true⟩

/-- The options drop_monitor sets before the event loop starts. -/
structure Config where
  doHist : HistBy
  dropThresh : UInt32
  histSkip : Hist → Bool
  skipOvsUpcalls : Bool
  skipUnix : Bool
  skipTcp : Bool
  ovsSym : Option Ksym

theorem toNat_add_one (x : UInt32) : (x + 1).toNat = (x.toNat + 1) % 2 ^ 32 := UInt32.toNat_add x 1

/-- What drop_monitor sets up for -s mode and no other option: the static initialisers
(drop_thresh = 1, no skips) and hist_disable_non_ipv4 in dip and sip mode. -/
def Config.ofMode (mode : HistBy) : Config :=
  ⟨mode, 1, if mode = .dip ∨ mode = .sip then histDisableNonIpv4 else fun _ => false, false, false,
    false, none⟩

end PktDrop
