import PktDrop.Basic
import Mathlib.Logic.Function.Basic
import Mathlib.Data.UInt

/-! The protocol bucket classifier: process_tcp, process_transport, process_ipv4/6,
process_arp and the switch on fl->proto that ends do_histogram. -/
namespace PktDrop

/-- The counters droph->buckets[HIST_MAX]. -/
abbrev Buckets := Hist → UInt32

/-- buckets[h]++. -/
def inc (b : Buckets) (h : Hist) : Buckets := Function.update b h (b h + 1)

/-- process_tcp: FIN before RST before SYN, at most one of them. -/
def processTcp (b : Buckets) (flt : FlowTcp) : Buckets :=
  if flt.fin then inc b .tcpFin
  else if flt.rst then inc b .tcpRst
  else if flt.syn then inc b .tcpSyn
  else b

/-- process_transport. -/
def processTransport (b : Buckets) (flt : FlowTransport) : Buckets :=
  if flt.proto = ipprotoTcp then processTcp (inc b .tcp) flt.tcp
  else if flt.proto = ipprotoUdp then inc b .udp
  else if flt.proto = ipprotoVrrp then inc b .vrrp
  else b

/-- process_ipv6. -/
def processIpv6 (b : Buckets) (fl6 : FlowIp6) : Buckets := processTransport (inc b .ipv6) fl6.trans

/-- process_ipv4. -/
def processIpv4 (b : Buckets) (fl4 : FlowIp4) : Buckets := processTransport (inc b .ipv4) fl4.trans

/-- process_arp. -/
def processArp (b : Buckets) (fla : FlowArp) : Buckets :=
  if fla.op = arpopRequest then inc (inc b .arp) .arpReq
  else if fla.op = arpopReply then inc (inc b .arp) .arpReply
  else inc (inc b .arp) .arpOther

/-- The switch (fl->proto) of do_histogram. -/
def classify (b : Buckets) (fl : Flow) : Buckets :=
  if fl.proto = ethPArp then processArp b fl.arp
  else if fl.proto = ethPIp then processIpv4 b fl.ip4
  else if fl.proto = ethPIpv6 then processIpv6 b fl.ip6
  else if fl.proto = ethPLldp then inc b .lldp
  else inc b .other

/-- The reference transport classification: TCP and its highest-precedence flag, UDP, VRRP,
or nothing. -/
def refTransport (t : FlowTransport) : List Hist :=
  if t.proto = ipprotoTcp then
    .tcp :: (if t.tcp.fin then [.tcpFin] else if t.tcp.rst then [.tcpRst]
      else if t.tcp.syn then [.tcpSyn] else [])
  else if t.proto = ipprotoUdp then [.udp]
  else if t.proto = ipprotoVrrp then [.vrrp]
  else []

/-- The reference classification of a flow, as a list of the buckets it counts in. -/
def refClassify (fl : Flow) : List Hist :=
  if fl.proto = ethPLldp then [.lldp]
  else if fl.proto = ethPArp then
    [.arp, if fl.arp.op = arpopRequest then .arpReq
      else if fl.arp.op = arpopReply then .arpReply else .arpOther]
  else if fl.proto = ethPIp then .ipv4 :: refTransport fl.ip4.trans
  else if fl.proto = ethPIpv6 then .ipv6 :: refTransport fl.ip6.trans
  else [.other]

@[simp] theorem inc_apply (b : Buckets) (h h' : Hist) :
    inc b h h' = b h' + if h' = h then 1 else 0 := by
  unfold inc
  by_cases e : h' = h
  · subst e; rw [Function.update_same, if_pos rfl]
  · rw [Function.update_noteq e, if_neg e, add_zero]

theorem processTransport_eq (b : Buckets) (t : FlowTransport) :
    processTransport b t = (refTransport t).foldl inc b := by
  unfold processTransport processTcp refTransport
  split_ifs <;> rfl

theorem processArp_eq (b : Buckets) (a : FlowArp) :
    processArp b a = [.arp, if a.op = arpopRequest then .arpReq
      else if a.op = arpopReply then .arpReply else .arpOther].foldl inc b := by
  unfold processArp
  split_ifs <;> rfl

theorem classify_eq_foldl (b : Buckets) (fl : Flow) :
    classify b fl = (refClassify fl).foldl inc b := by
  unfold classify refClassify
  by_cases ha : fl.proto = ethPArp
  · rw [if_pos ha, if_neg (by rw [ha]; decide), if_pos ha, processArp_eq]
  by_cases h4 : fl.proto = ethPIp
  · rw [if_neg ha, if_pos h4, if_neg (by rw [h4]; decide), if_neg ha, if_pos h4, processIpv4,
      processTransport_eq]; rfl
  by_cases h6 : fl.proto = ethPIpv6
  · rw [if_neg ha, if_neg h4, if_pos h6, if_neg (by rw [h6]; decide), if_neg ha, if_neg h4,
      if_pos h6, processIpv6, processTransport_eq]; rfl
  rw [if_neg ha, if_neg h4, if_neg h6]
  by_cases hl : fl.proto = ethPLldp
  · rw [if_pos hl, if_pos hl]; rfl
  · rw [if_neg hl, if_neg hl, if_neg ha, if_neg h4, if_neg h6]; rfl

theorem refTransport_nodup (t : FlowTransport) : (refTransport t).Nodup := by
  unfold refTransport
  split_ifs <;> decide

theorem refClassify_nodup (fl : Flow) : (refClassify fl).Nodup := by
  have hm : ∀ t, Hist.ipv4 ∉ refTransport t ∧ Hist.ipv6 ∉ refTransport t := by
    intro t; unfold refTransport; split_ifs <;> decide
  unfold refClassify
  by_cases h1 : fl.proto = ethPLldp
  · rw [if_pos h1]; decide
  rw [if_neg h1]
  by_cases h2 : fl.proto = ethPArp
  · rw [if_pos h2]; split_ifs <;> decide
  rw [if_neg h2]
  by_cases h3 : fl.proto = ethPIp
  · rw [if_pos h3]; exact List.nodup_cons.mpr ⟨(hm _).1, refTransport_nodup _⟩
  rw [if_neg h3]
  by_cases h4 : fl.proto = ethPIpv6
  · rw [if_pos h4]; exact List.nodup_cons.mpr ⟨(hm _).2, refTransport_nodup _⟩
  rw [if_neg h4]; decide

theorem foldl_inc_apply (b : Buckets) {hs : List Hist} (hd : hs.Nodup) (h : Hist) :
    hs.foldl inc b h = b h + if h ∈ hs then 1 else 0 := by
  induction hs generalizing b with
  | nil => simp
  | cons x xs ih =>
    rw [List.nodup_cons] at hd
    rw [List.foldl_cons, ih _ hd.2, inc_apply]
    by_cases e : h = x
    · subst e; simp [hd.1]
    · simp [e]

/-- Each sample adds exactly the indicator vector of its reference classification. -/
theorem classify_apply (b : Buckets) (fl : Flow) (h : Hist) :
    classify b fl h = b h + if h ∈ refClassify fl then 1 else 0 := by
  rw [classify_eq_foldl, foldl_inc_apply b (refClassify_nodup fl)]

end PktDrop
