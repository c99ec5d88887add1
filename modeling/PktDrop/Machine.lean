import PktDrop.Run

/-! The store invariant of the event loop: along every run both rb-trees stay search trees on
addr, so a lookup returns the one entry with its key and a write through the pointer it returns
changes that entry alone. One lemma per handler, then the step and the run. -/
namespace PktDrop

/-- Both stores are search trees on addr. -/
structure State.Wf (s : State) : Prop where
  hists : s.allDropHists.Ordered DropHist.addr
  locs : s.allDropLoc.Ordered DropLoc.addr

theorem State.wf_init : State.init.Wf := ⟨Tree.ordered_nil _, Tree.ordered_nil _⟩

section Handlers
variable (env : Env cap) (cfg : Config)

/-- find_droph creates entries under the key it is asked for. -/
theorem findDroph_mk_addr (alloc create : Bool) (addr : UInt64) (s : State) :
    ∀ n ∈ (if create then (newDroph env cfg alloc s.nsid addr).1 else none), n.addr = addr := by
  split_ifs
  · exact fun n hn => (newDroph_fresh env cfg alloc s.nsid addr n hn).1
  · exact fun n hn => by cases hn

theorem findDroph_hists (alloc create : Bool) (addr : UInt64) (s : State) :
    (findDroph env cfg alloc create addr s).1.allDropHists = (s.allDropHists.find DropHist.addr addr
      (if create then (newDroph env cfg alloc s.nsid addr).1 else none)).1 :=
  congrArg Prod.fst (findDroph_find env cfg alloc create addr s)

/-- Without create, find_droph leaves the state as it is. -/
theorem findDroph_no_create (alloc : Bool) (addr : UInt64) (s : State) :
    (findDroph env cfg alloc false addr s).1 = s := by
  unfold findDroph; split <;> rfl

variable {s : State} (h : s.Wf)
include h

/-- The entry find_droph returns is in the store it leaves, under the key asked for. -/
theorem findDroph_mem {alloc create : Bool} {addr : UInt64} {e : DropHist}
    (he : (findDroph env cfg alloc create addr s).2 = some e) :
    e ∈ (findDroph env cfg alloc create addr s).1.allDropHists.toList ∧ e.addr = addr := by
  rw [findDroph_hists]
  exact Tree.find_mem DropHist.addr h.hists (findDroph_mk_addr env cfg alloc create addr s)
    ((congrArg Prod.snd (findDroph_find env cfg alloc create addr s)).symm.trans he)

theorem findDroph_wf (alloc create : Bool) (addr : UInt64) :
    (findDroph env cfg alloc create addr s).1.Wf := by
  rw [findDroph_state]
  refine ⟨?_, h.locs⟩
  show (findDroph env cfg alloc create addr s).1.allDropHists.Ordered _
  rw [findDroph_hists]
  exact Tree.ordered_find _ h.hists (findDroph_mk_addr env cfg alloc create addr s)

theorem doHistogram_wf (a : Alloc) (fl : Flow) (netns : UInt64) :
    (doHistogram env cfg a fl netns s).1.Wf := by
  unfold doHistogram
  split
  · exact h
  · have h' := findDroph_wf env cfg h a.droph true ‹_›
    split <;> rename_i heq <;> simp only [heq] at h'
    · exact h'
    · exact ⟨Tree.ordered_modify _ h'.hists _ (countDrop_addr cfg a.flowEntry fl), h'.locs⟩

theorem countPacket_wf (a : Alloc) (d : Data cap) (sym : Option Ksym) :
    (countPacket a d sym s).Wf := by
  have hf := Tree.ordered_find DropLoc.addr h.locs
    fun n hn => (newDropl_fresh a.dropl d.location (sym.map (·.name)) n hn).1
  refine ⟨h.hists, ?_⟩
  dsimp only [countPacket]
  split_ifs
  · exact Tree.ordered_modify _ hf _ DropLoc.bump_addr
  · exact hf

theorem processPacket_wf (a : Alloc) (d : Data cap) (sym : Option Ksym) :
    (processPacket env cfg a d sym s).1.Wf := by
  have h₁ := countPacket_wf h a d sym
  unfold processPacket
  split_ifs
  · exact ⟨h₁.hists, h₁.locs⟩
  · split
    · exact h₁
    · exact doHistogram_wf env cfg h₁ a _ d.netns

theorem processExit_wf (d : Data cap) : (processExit env cfg d s).1.Wf := by
  have h' := findDroph_wf env cfg h false false d.netns
  unfold processExit
  split <;> rename_i heq <;> simp only [heq] at h'
  · exact ⟨Tree.ordered_modify _ h'.hists _ fun _ => rfl, h'.locs⟩
  · exact h'

theorem processEvent_wf {d : Data cap} {a : Alloc} {r : State × List Line}
    (hr : processEvent env cfg d a s = some r) : r.1.Wf := by
  unfold processEvent at hr
  split at hr
  · obtain ⟨skip, -, rfl⟩ := Option.map_eq_some'.mp hr
    split_ifs
    exacts [h, processPacket_wf env cfg h a d _, h]
  · cases hr; exact processExit_wf env cfg h d
  · cases hr; exact h

theorem showHist_wf : (showHist cfg s).1.Wf := by
  refine ⟨Tree.ordered_removeDead _ ?_ _, Tree.ordered_removeDead _ ?_ _⟩
  · show (if cfg.doHist = .flow then showFlowBuckets cfg s.allDropHists
      else showHistBuckets cfg s.allDropHists).1.Ordered _
    split_ifs
    · exact Tree.ordered_map _ h.hists (showFlowEntry_addr cfg)
    · exact Tree.ordered_map _ h.hists (showHistEntry_addr cfg)
  · exact Tree.ordered_map _ h.locs showLocEntry_addr

end Handlers

theorem step_wf {env : Env cap} {cfg : Config} {s : State} (h : s.Wf) {i : Input cap}
    {r : State × List Line} (hr : step env cfg i s = some r) : r.1.Wf := by
  cases i with
  | event d a => exact processEvent_wf env cfg h hr
  | report => cases hr; exact showHist_wf cfg h

/-- Every state a run reaches keeps both stores search trees. -/
theorem run_wf {env : Env cap} {cfg : Config} (is : List (Input cap)) {s s' : State} (h : s.Wf)
    (hr : run env cfg s is = some s') : s'.Wf := by
  induction is generalizing s with
  | nil => cases hr; exact h
  | cons i is ih =>
    obtain ⟨r, hr₁, hr₂⟩ := Option.bind_eq_some.mp hr
    exact ih (step_wf h hr₁) hr₂

end PktDrop
