import PktDrop.Pipeline

/-! The cycle report and the aging sweep: show_hist, its passes over the stores (maps of the
tree with each entry's lines) and the removal loops, with the blocks they free. -/
namespace PktDrop

namespace Tree
variable {α β : Type}

/-- A pass over the entries in order: each entry is updated in place and prints its lines. -/
def sweep (f : α → α × List β) (t : Tree α) : Tree α × List β :=
  (t.map (fun e => (f e).1), t.toList.flatMap (fun e => (f e).2))

end Tree

/-- The aging step on a drop_hist: if (total_drops) aging = 3; else if (--aging == 0)
dead = true; then total_drops = 0. -/
def ageHist (e : DropHist) : DropHist :=
  { e with
    aging := (age e.totalDrops e.aging).1
    dead := e.dead || (age e.totalDrops e.aging).2
    totalDrops := 0 }

@[simp] theorem ageHist_addr (e : DropHist) : (ageHist e).addr = e.addr := rfl

/-- The same aging step on a drop_loc. -/
def ageLoc (e : DropLoc) : DropLoc :=
  { e with
    aging := (age e.totalDrops e.aging).1
    dead := e.dead || (age e.totalDrops e.aging).2
    totalDrops := 0 }

@[simp] theorem ageLoc_addr (e : DropLoc) : (ageLoc e).addr = e.addr := rfl

/-- The columns shown: hist_desc[i].skip unset. -/
def shownBuckets (cfg : Config) : List Hist := Hist.all.filter (fun h => !cfg.histSkip h)

/-- The row label of show_hist_buckets. -/
def rowLabel (mode : HistBy) (e : DropHist) : Label :=
  match mode with
  | .netns => .name e.name e.dead
  | .dmac | .smac => .mac ((addrBytes e.addr).take 6)
  | .dip | .sip => .ip4 ((addrBytes e.addr).take 4)
  | _ => .none

/-- One entry of show_hist_buckets: below drop_thresh it goes straight to do_aging, past the
loop that prints and zeroes the buckets. -/
def showHistEntry (cfg : Config) (e : DropHist) : DropHist × List Line :=
  if e.totalDrops < cfg.dropThresh then (ageHist e, [])
  else (ageHist { e with buckets := fun _ => 0 },
    [.histRow (rowLabel cfg.doHist e) ((shownBuckets cfg).map e.buckets) e.totalDrops])

@[simp] theorem showHistEntry_addr (cfg : Config) (e : DropHist) :
    (showHistEntry cfg e).1.addr = e.addr := by
  unfold showHistEntry; split <;> rfl

@[simp] theorem showHistEntry_totalDrops (cfg : Config) (e : DropHist) :
    (showHistEntry cfg e).1.totalDrops = 0 := by
  unfold showHistEntry; split <;> rfl

/-- The messages show_flow_buckets prints for the flags of a bucket. -/
def flagLines (flb : FlowBuckets) : List Line :=
  (if flb.overflow then [.msg "too many flow entries for bucket"] else []) ++
    (if flb.failures then [.msg "failures processing entry"] else [])

/-- One entry of show_flow_buckets. -/
def showFlowEntry (cfg : Config) (e : DropHist) : DropHist × List Line :=
  let showBuckets := decide (e.totalDrops ≥ cfg.dropThresh)
  (ageHist { e with flb := sweepFlows e.flb },
    e.flb.flows.filterMap (fun fe =>
        if showBuckets && fe.hits ≠ 0 then some (.flowHits fe.hits fe.flow) else none)
      ++ flagLines e.flb ++ (if showBuckets then [.msg ""] else []))

@[simp] theorem showFlowEntry_addr (cfg : Config) (e : DropHist) :
    (showFlowEntry cfg e).1.addr = e.addr := rfl

@[simp] theorem showFlowEntry_totalDrops (cfg : Config) (e : DropHist) :
    (showFlowEntry cfg e).1.totalDrops = 0 := rfl

/-- One entry of the first pass of show_loc_entries. -/
def showLocEntry (e : DropLoc) : DropLoc × List Line :=
  (ageLoc e, if e.totalDrops ≠ 0 then [.loc e.name e.totalDrops] else [])

@[simp] theorem showLocEntry_addr (e : DropLoc) : (showLocEntry e).1.addr = e.addr := rfl

@[simp] theorem showLocEntry_totalDrops (e : DropLoc) : (showLocEntry e).1.totalDrops = 0 := rfl

/-- show_loc_entries: the printing and aging pass, then the removal loop. -/
def showLocEntries (t : Tree DropLoc) : Tree DropLoc × List Line :=
  let r := t.sweep showLocEntry
  (r.1.removeDead (·.dead), .msg "" :: r.2)

/-- show_flow_buckets. -/
def showFlowBuckets (cfg : Config) (t : Tree DropHist) : Tree DropHist × List Line :=
  t.sweep (showFlowEntry cfg)

/-- show_hist_buckets. -/
def showHistBuckets (cfg : Config) (t : Tree DropHist) : Tree DropHist × List Line :=
  t.sweep (showHistEntry cfg)

/-- cleanup_hist_buckets: the removal loop; remove_droph also frees the flow records. -/
def cleanupHistBuckets (t : Tree DropHist) : Tree DropHist := t.removeDead (·.dead)

/-- A block the removal loops hand to free(). -/
inductive Freed
  | flowEntry (fe : FlowEntry)
  | droph (e : DropHist)
  | dropl (e : DropLoc)

/-- remove_droph once rb_erase has unlinked the entry: in flow mode list_del and free each flow
record of its bucket, then free the entry. The blocks it frees, in order. -/
def removeDroph (cfg : Config) (e : DropHist) : List Freed :=
  (if cfg.doHist = .flow then e.flb.flows.map .flowEntry else []) ++ [.droph e]

/-- remove_dropl once rb_erase has unlinked the entry: free it. -/
def removeDropl (e : DropLoc) : List Freed := [.dropl e]

/-- The loop of cleanup_hist_buckets given n scans, with the blocks remove_droph frees. -/
def cleanupHistBucketsLoop (cfg : Config) (n : ℕ) (t : Tree DropHist) :
    Option (Tree DropHist × List Freed) :=
  Tree.restartLoop (·.dead) (removeDroph cfg) n t

/-- The removal loop of show_loc_entries given n scans, with the blocks remove_dropl frees. -/
def showLocEntriesLoop (n : ℕ) (t : Tree DropLoc) : Option (Tree DropLoc × List Freed) :=
  Tree.restartLoop (·.dead) removeDropl n t

/-- show_hist. -/
def showHist (cfg : Config) (s : State) : State × List Line :=
  let hists := if cfg.doHist = .flow then showFlowBuckets cfg s.allDropHists
    else showHistBuckets cfg s.allDropHists
  let locs := showLocEntries s.allDropLoc
  ({ s with
      totalDrops := 0
      totalDropsUnix := 0
      totalDropsByType := fun _ => 0
      allDropLoc := locs.1
      allDropHists := cleanupHistBuckets hists.1 },
    .header s.totalDrops s.totalDropsUnix ::
      (if cfg.doHist = .flow then hists.2 else .columns ((shownBuckets cfg).map Hist.str) :: hists.2) ++
      .byType (List.ofFn s.totalDropsByType) :: locs.2)

/-- The removal loops end, each restart removing one dead entry, and exit with the live entries
in order, having freed each dead group's flow records (in flow mode) and then the group. -/
theorem removal_loops_exit (cfg : Config) (th : Tree DropHist) (tl : Tree DropLoc) (n : ℕ) :
    (∀ e t', th.scanErase (·.dead) = some (e, t') →
      e.dead = true ∧ t'.toList.countP (·.dead) + 1 = th.toList.countP (·.dead)) ∧
    (∀ e t', tl.scanErase (·.dead) = some (e, t') →
      e.dead = true ∧ t'.toList.countP (·.dead) + 1 = tl.toList.countP (·.dead)) ∧
    (th.scanErase (·.dead) = none ↔ th.toList.countP (·.dead) = 0) ∧
    (tl.scanErase (·.dead) = none ↔ tl.toList.countP (·.dead) = 0) ∧
    ((cleanupHistBucketsLoop cfg n th).isSome ↔ th.toList.countP (·.dead) < n) ∧
    ((showLocEntriesLoop n tl).isSome ↔ tl.toList.countP (·.dead) < n) ∧
    (th.toList.countP (·.dead) < n → cleanupHistBucketsLoop cfg n th =
      some (cleanupHistBuckets th, (th.toList.filter (·.dead)).flatMap fun e =>
        (if cfg.doHist = .flow then e.flb.flows.map Freed.flowEntry else []) ++ [Freed.droph e])) ∧
    (tl.toList.countP (·.dead) < n → showLocEntriesLoop n tl =
      some (tl.removeDead (·.dead), (tl.toList.filter (·.dead)).map Freed.dropl)) ∧
    (cleanupHistBuckets th).toList = th.toList.filter (fun e => !e.dead) ∧
    (tl.removeDead (·.dead)).toList = tl.toList.filter (fun e => !e.dead) ∧
    (th.Ordered DropHist.addr → (cleanupHistBuckets th).Ordered DropHist.addr) ∧
    (tl.Ordered DropLoc.addr → (tl.removeDead (·.dead)).Ordered DropLoc.addr) :=
  ⟨fun _ _ => Tree.scanErase_measure, fun _ _ => Tree.scanErase_measure,
    Tree.scanErase_eq_none_iff _ _, Tree.scanErase_eq_none_iff _ _,
    Tree.restartLoop_isSome_iff _ _ _ _, Tree.restartLoop_isSome_iff _ _ _ _,
    Tree.restartLoop_of_lt _ _ _ _,
    fun h => (Tree.restartLoop_of_lt _ _ _ _ h).trans (by rw [List.map_eq_flatMap]; rfl),
    Tree.toList_removeDead _ _, Tree.toList_removeDead _ _,
    fun h => Tree.ordered_removeDead _ h _, fun h => Tree.ordered_removeDead _ h _⟩

/-- Two dead entries around a live one: two scans do not reach the exit, three do. -/
example :
    let t : Tree DropLoc := .node (.node .nil ⟨1, "a", 0, 0, true⟩ .nil) ⟨2, "b", 0, 1, false⟩
      (.node .nil ⟨3, "c", 0, 0, true⟩ .nil)
    showLocEntriesLoop 2 t = none ∧
      (showLocEntriesLoop 3 t).map (·.1.toList) = some [⟨2, "b", 0, 1, false⟩] :=
  ⟨rfl, rfl⟩

end PktDrop
