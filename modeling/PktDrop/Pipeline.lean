import PktDrop.Store
import PktDrop.Key

/-! The per-event path: process_event, process_packet, do_histogram, process_exit, and the
parse call of show_packet. Printed output is kept as the values each format string prints. -/
namespace PktDrop

/-- The label of a table row: the netns name with its dead marker, the bytes print_mac reads,
or the bytes inet_ntop reads. -/
inductive Label
  | name (s : String) (dead : Bool)
  | mac (bytes : List UInt8)
  | ip4 (bytes : List UInt8)
  | none
  deriving DecidableEq

/-- One printed line, with the values its format string prints. -/
inductive Line
  | msg (s : String)
  | header (totalDrops totalDropsUnix : UInt32)
  | columns (names : List String)
  | histRow (label : Label) (counts : List UInt32) (total : UInt32)
  | flowHits (hits : UInt32) (flow : Flow)
  | byType (counts : List UInt32)
  | loc (name : String) (total : UInt32)
  | deadNs (name : String) (addr : UInt64)
  | allocFailed (addr : UInt64)
  | packet (flow : Option Flow)
  deriving DecidableEq

/-- data->pkt_type & PKT_TYPE_MAX, the index into total_drops_by_type. -/
def pktTypeIdx (t : UInt8) : Fin 8 :=
  ⟨(t &&& pktTypeMax).toNat, by
    rw [UInt8.and_toNat]; exact Nat.lt_of_le_of_lt Nat.and_le_right (by decide)⟩

/-- The fl that process_packet and show_packet hand to parse_pkt: zero, with the VLAN tag. -/
def vlanFlow (d : Data cap) : Flow :=
  if d.vlanTci ≠ 0 then { Flow.zero with hasVlan := true, outerVlanTCI := d.vlanTci } else Flow.zero

/-- The parse_pkt call of process_packet: length data->pkt_len. -/
def packetReq (d : Data cap) : ParseReq cap := ⟨vlanFlow d, d.protocol, d.pktData, d.pktLen⟩

/-- The parse_pkt call of show_packet: pkt_len clamped to sizeof(data->pkt_data). -/
def showPacketReq (d : Data cap) : ParseReq cap :=
  ⟨vlanFlow d, d.protocol, d.pktData, if d.pktLen.toNat > cap then UInt32.ofNat cap else d.pktLen⟩

/-- What do_histogram does to the entry find_droph returned: droph->total_drops++, then the
flow bucket in flow mode, the protocol buckets otherwise. -/
def countDrop (cfg : Config) (alloc : Bool) (fl : Flow) (e : DropHist) : DropHist :=
  if cfg.doHist = .flow then { e with totalDrops := e.totalDrops + 1, flb := processFlow alloc e.flb fl }
  else { e with totalDrops := e.totalDrops + 1, buckets := classify e.buckets fl }

@[simp] theorem countDrop_addr (cfg : Config) (alloc : Bool) (fl : Flow) (e : DropHist) :
    (countDrop cfg alloc fl e).addr = e.addr := by
  unfold countDrop; split <;> rfl

/-- do_histogram. -/
def doHistogram (env : Env cap) (cfg : Config) (a : Alloc) (fl : Flow) (netns : UInt64)
    (s : State) : State × List Line :=
  match histKey cfg.doHist fl netns with
  | none => (s, [])
  | some addr =>
    match findDroph env cfg a.droph true addr s with
    | (s', none) => (s', [.allocFailed addr])
    | (s', some _) =>
      ({ s' with allDropHists := s'.allDropHists.modify DropHist.addr addr (countDrop cfg a.flowEntry fl) }, [])

/-- do_histogram touches the histogram store and nsid only. -/
theorem doHistogram_state (env : Env cap) (cfg : Config) (a : Alloc) (fl : Flow) (netns : UInt64)
    (s : State) :
    (doHistogram env cfg a fl netns s).1 = { s with
      allDropHists := (doHistogram env cfg a fl netns s).1.allDropHists
      nsid := (doHistogram env cfg a fl netns s).1.nsid } := by
  unfold doHistogram
  split
  · rfl
  · have h := findDroph_state env cfg a.droph true ‹_› s
    split <;> rename_i heq <;> simp only [heq] at h <;> rw [h]

/-- dropl->total_drops++. -/
def DropLoc.bump (e : DropLoc) : DropLoc := { e with totalDrops := e.totalDrops + 1 }

@[simp] theorem DropLoc.bump_addr (e : DropLoc) : e.bump.addr = e.addr := rfl

/-- The head of process_packet: total_drops++, total_drops_by_type[pkt_type & PKT_TYPE_MAX]++,
and dropl->total_drops++ when find_dropl returns an entry. -/
def countPacket (a : Alloc) (d : Data cap) (sym : Option Ksym) (s : State) : State :=
  let i := pktTypeIdx d.pktType
  let r := findDropl a.dropl d.location (sym.map (·.name)) s.allDropLoc
  { s with
    totalDrops := s.totalDrops + 1
    totalDropsByType := Function.update s.totalDropsByType i (s.totalDropsByType i + 1)
    allDropLoc := if r.2.isSome then r.1.modify DropLoc.addr d.location DropLoc.bump else r.1 }

/-- process_packet. -/
def processPacket (env : Env cap) (cfg : Config) (a : Alloc) (d : Data cap) (sym : Option Ksym)
    (s : State) : State × List Line :=
  let s := countPacket a d sym s
  if sym.any (·.isUnix) then ({ s with totalDropsUnix := s.totalDropsUnix + 1 }, [])
  else match env.parsePkt (packetReq d) with
    | none => (s, [.msg "Failed to parse packet"])
    | some fl => doHistogram env cfg a fl d.netns s

/-- process_exit: mark the netns group dead at once. -/
def processExit (env : Env cap) (cfg : Config) (d : Data cap) (s : State) : State × List Line :=
  match findDroph env cfg false false d.netns s with
  | (s', some e) =>
    ({ s' with allDropHists := s'.allDropHists.modify DropHist.addr d.netns (fun e => { e with dead := true }) },
      [.deadNs e.name e.addr])
  | (s', none) => (s', [])

/-- show_packet, for its parse of the packet; the other fields it prints are formatting. -/
def showPacket (env : Env cap) (d : Data cap) (sym : Option Ksym) : List Line :=
  if d.protocol ≠ 0 ∨ !sym.any (·.isUnix) then [.packet (env.parsePkt (showPacketReq d))] else []

/-- The skip tests of process_event for a sample: some true to drop it, some false to go on,
none where the code dereferences a NULL symbol (sym->is_unix, sym->is_tcp). -/
def skipSample (cfg : Config) (sym : Option Ksym) : Option Bool :=
  if cfg.skipOvsUpcalls ∧ sym = cfg.ovsSym then some true
  else
    (if cfg.skipUnix then sym.map (·.isUnix) else some false).bind fun u =>
      if u then some true else if cfg.skipTcp then sym.map (·.isTcp) else some false

/-- process_event; none is the crash of a NULL dereference. -/
def processEvent (env : Env cap) (cfg : Config) (d : Data cap) (a : Alloc) (s : State) :
    Option (State × List Line) :=
  match d.eventType with
  | .sample =>
    let sym := env.findKsym d.location
    (skipSample cfg sym).map fun skip =>
      if skip then (s, [])
      else if cfg.doHist ≠ .none then processPacket env cfg a d sym s
      else (s, showPacket env d sym)
  | .exit => some (processExit env cfg d s)
  | .other => some (s, [])

theorem skipSample_eq_none_iff (cfg : Config) (sym : Option Ksym) :
    skipSample cfg sym = none ↔ sym = none ∧ ¬(cfg.skipOvsUpcalls = true ∧ cfg.ovsSym = none) ∧
      (cfg.skipUnix = true ∨ cfg.skipTcp = true) := by
  unfold skipSample
  cases sym with
  | some k =>
    simp only [reduceCtorEq, false_and, iff_false]
    split_ifs <;> simp [apply_ite (· = none)]
  | none =>
    simp only [@eq_comm _ none cfg.ovsSym, true_and]
    split_ifs <;> simp_all

/-- process_event dereferences a NULL symbol exactly on a sample whose location find_ksym cannot
resolve, when the ovs test has not returned first (it returns only if ovs_sym is NULL as well)
and -U or -T makes it read sym->is_unix or sym->is_tcp. -/
theorem processEvent_crash_iff (env : Env cap) (cfg : Config) (d : Data cap) (a : Alloc)
    (s : State) :
    processEvent env cfg d a s = none ↔
      d.eventType = .sample ∧ env.findKsym d.location = none ∧
        ¬(cfg.skipOvsUpcalls = true ∧ cfg.ovsSym = none) ∧
        (cfg.skipUnix = true ∨ cfg.skipTcp = true) := by
  unfold processEvent
  split <;> simp [skipSample_eq_none_iff, *]

/-- With -U alone, a sample at a location with no symbol crashes process_event. -/
example : processEvent ⟨fun _ => none, fun _ => none⟩ { Config.ofMode .netns with skipUnix := true }
    (⟨.sample, 0x10, 0x1000, 0, 60, ethPIp, 0, .replicate 0 0⟩ : Data 0) Alloc.ok State.init =
      none := rfl

/-- A 60-byte packet with 4 bytes captured: process_packet hands parse_pkt 60 bytes and
show_packet 4, so a parser bounded by the capture fails only on the histogram path. -/
theorem processPacket_parse_len_unclamped :
    let d : Data 4 := ⟨.sample, 0x10, 0x1000, 0, 60, ethPIp, 0, .replicate 4 0⟩
    let env : Env 4 := ⟨fun _ => none, fun r => if r.len.toNat ≤ 4 then some Flow.zero else none⟩
    (packetReq d).len.toNat = 60 ∧ (showPacketReq d).len.toNat = 4 ∧
      (processEvent env (.ofMode .netns) d Alloc.ok State.init).map (·.2) =
        some [.msg "Failed to parse packet"] ∧
      (processEvent env (.ofMode .none) d Alloc.ok State.init).map (·.2) =
        some [.packet (some Flow.zero)] := by
  decide

end PktDrop
