import PktDrop.Machine
import Mathlib.Algebra.BigOperators.Group.Finset
import Mathlib.Algebra.Order.BigOperators.Group.List

/-! What the counters count: the increments do_histogram makes for one sample, the conservation
law tying the global, per-type, per-location and per-group counters together over every run,
and where the reset of show_hist falls short. -/
namespace PktDrop

/-- In a non-flow mode, do_histogram adds one to the entry's total_drops and bumps the buckets
classify names. -/
theorem countDrop_of_ne_flow {cfg : Config} (hmode : cfg.doHist ≠ .flow) (alloc : Bool) (fl : Flow)
    (e : DropHist) :
    countDrop cfg alloc fl e = { e with
      totalDrops := e.totalDrops + 1
      buckets := fun h => e.buckets h + if h ∈ refClassify fl then 1 else 0 } := by
  rw [countDrop, if_neg hmode]
  congr
  exact funext (classify_apply e.buckets fl)

/-- In a non-flow mode, in every reachable state, do_histogram adds 1 to the found entry's
total_drops and the sample's reference class to its buckets, and changes nothing else. -/
theorem doHistogram_counts (env : Env cap) (cfg : Config) (hmode : cfg.doHist ≠ .flow)
    {is : List (Input cap)} {s : State} (hrun : run env cfg State.init is = some s) (a : Alloc)
    (fl : Flow) (netns : UInt64) {k : UInt64} (hk : histKey cfg.doHist fl netns = some k)
    {e : DropHist} (he : (findDroph env cfg a.droph true k s).2 = some e) :
    e ∈ (findDroph env cfg a.droph true k s).1.allDropHists.toList ∧ e.addr = k ∧
      (doHistogram env cfg a fl netns s).1.allDropHists.toList =
        (findDroph env cfg a.droph true k s).1.allDropHists.toList.map fun x =>
          if x.addr = k then { x with
            totalDrops := x.totalDrops + 1
            buckets := fun h => x.buckets h + if h ∈ refClassify fl then 1 else 0 } else x := by
  have hs := run_wf is State.wf_init hrun
  have hf := findDroph_wf env cfg hs a.droph true k
  refine ⟨(findDroph_mem env cfg hs he).1, (findDroph_mem env cfg hs he).2, ?_⟩
  unfold doHistogram
  rw [hk]
  rcases hr : findDroph env cfg a.droph true k s with ⟨s', _ | e'⟩
  · rw [hr] at he; cases he
  · simp only [hr] at hf ⊢
    rw [Tree.toList_modify _ hf.hists]
    exact List.map_congr_left fun x _ => by split_ifs <;> simp [countDrop_of_ne_flow hmode]

theorem doHistogram_counts_first :
    let env : Env 0 := ⟨fun _ => none, fun _ => none⟩
    let cfg := Config.ofMode .dmac
    let k : UInt64 := 0
    cfg.doHist ≠ .flow ∧ run env cfg State.init [] = some State.init ∧
      histKey cfg.doHist Flow.zero 0 = some k ∧
      (findDroph env cfg Alloc.ok.droph true k State.init).2 = some ⟨0, "", 0, 0, false, fun _ => 0, .empty⟩ ∧
      ⟨0, "", 0, 0, false, fun _ => 0, .empty⟩ ∈
        (findDroph env cfg Alloc.ok.droph true k State.init).1.allDropHists.toList ∧
      (doHistogram env cfg Alloc.ok Flow.zero 0 State.init).1.allDropHists.toList =
        (findDroph env cfg Alloc.ok.droph true k State.init).1.allDropHists.toList.map fun x =>
          if x.addr = k then { x with
            totalDrops := x.totalDrops + 1
            buckets := fun h => x.buckets h + if h ∈ refClassify Flow.zero then 1 else 0 } else x := by
  intro env cfg k
  have hr : run env cfg State.init [] = some State.init := rfl
  have h := doHistogram_counts env cfg (by decide) hr Alloc.ok Flow.zero 0 rfl rfl
  exact ⟨by decide, hr, rfl, rfl, h.1, h.2.2⟩

/-- drop_thresh 2 in netns mode, one unparsed-protocol sample in the first cycle and two in the
second: the first show_hist leaves the entry's OTHER bucket at 1, since an entry below the
threshold skips the zeroing loop, and the second prints a row with OTHER 3 and total 2. -/
theorem showHist_keeps_buckets_below_thresh :
    let env : Env 4 := ⟨fun _ => none, fun _ => some Flow.zero⟩
    let cfg : Config := { Config.ofMode .netns with dropThresh := 2 }
    let smp : Data 4 := ⟨.sample, 0x10, 0x1000, 0, 60, 0, 0, .replicate 4 0⟩
    (run env cfg State.init [.event smp .ok, .report]).map
        (fun s => s.allDropHists.toList.map (·.buckets .other)) = some [1] ∧
      (run env cfg State.init [.event smp .ok, .report, .event smp .ok, .event smp .ok]).map
        (fun s => (showHist cfg s).2.contains
          (.histRow (.name "netns-0" false) [0, 0, 0, 0, 0, 0, 0, 0, 0, 0, 0, 0, 0, 3] 2)) = some true := by
  decide

section Conservation
variable (env : Env cap) (cfg : Config)

/-- The event is a sample that process_event hands to process_packet. -/
def processesPacket (d : Data cap) : Prop :=
  d.eventType = .sample ∧ skipSample cfg (env.findKsym d.location) = some false ∧ cfg.doHist ≠ .none

instance (d : Data cap) : Decidable (processesPacket env cfg d) :=
  inferInstanceAs (Decidable (_ ∧ _ ∧ _))

/-- A sample process_packet counts for which find_dropl returns NULL: its calloc failed. -/
def droplFailed (d : Data cap) (a : Alloc) (s : State) : Prop :=
  processesPacket env cfg d ∧
    (findDropl a.dropl d.location ((env.findKsym d.location).map (·.name)) s.allDropLoc).2 = none

instance (d : Data cap) (a : Alloc) (s : State) : Decidable (droplFailed env cfg d a s) :=
  inferInstanceAs (Decidable (_ ∧ _))

/-- The states the event loop reaches from program start, with the number of samples that
arrived since the last report and the number of those counted without a drop_loc. -/
inductive Reach : State → ℕ → ℕ → Prop
  | init : Reach State.init 0 0
  | event {s : State} {n f : ℕ} (d : Data cap) (a : Alloc) {r : State × List Line} :
      Reach s n f → processEvent env cfg d a s = some r →
      Reach r.1 (n + if d.eventType = .sample then 1 else 0)
        (f + if droplFailed env cfg d a s then 1 else 0)
  | report {s : State} {n f : ℕ} : Reach s n f → Reach (showHist cfg s).1 0 0

/-- What process_event does to the state: nothing, process_packet, or process_exit. -/
theorem processEvent_cases {d : Data cap} {a : Alloc} {s : State} {r : State × List Line}
    (hr : processEvent env cfg d a s = some r) :
    (¬ processesPacket env cfg d ∧ d.eventType ≠ .exit ∧ r.1 = s) ∨
      (processesPacket env cfg d ∧ r = processPacket env cfg a d (env.findKsym d.location) s) ∨
      (d.eventType = .exit ∧ r = processExit env cfg d s) := by
  unfold processEvent at hr
  split at hr
  · rename_i he
    obtain ⟨skip, hskip, rfl⟩ := Option.map_eq_some'.mp hr
    by_cases hp : processesPacket env cfg d
    · have hs : skip = false := Option.some.inj (hskip.symm.trans hp.2.1)
      exact .inr (.inl ⟨hp, by simp [hs, hp.2.2]⟩)
    · refine .inl ⟨hp, by rw [he]; decide, ?_⟩
      split_ifs with h1 h2
      · rfl
      · exact absurd ⟨he, by simp [hskip, h1], h2⟩ hp
      · rfl
  · exact .inr (.inr ⟨‹_›, (Option.some.inj hr).symm⟩)
  · rename_i he
    cases hr
    exact .inl ⟨fun hp => absurd (he.symm.trans hp.1) (by decide), by rw [he]; decide, rfl⟩

theorem Reach.wf {s : State} {n f : ℕ} (h : Reach env cfg s n f) : s.Wf := by
  induction h with
  | init => exact State.wf_init
  | event d a _ hr ih => exact processEvent_wf env cfg ih hr
  | report _ ih => exact showHist_wf cfg ih

/-- The sum of the per-entry totals of a store. -/
abbrev histTotal (s : State) : ℕ := (s.allDropHists.toList.map (·.totalDrops.toNat)).sum

/-- The sum of the per-location totals. -/
abbrev locTotal (s : State) : ℕ := (s.allDropLoc.toList.map (·.totalDrops.toNat)).sum

/-- The conservation facts, with the counters read as naturals. -/
structure Conserved (s : State) (n f : ℕ) : Prop where
  le : s.totalDrops.toNat ≤ n
  byType : ∑ i, (s.totalDropsByType i).toNat = s.totalDrops.toNat
  locs : locTotal s + f = s.totalDrops.toNat
  hists : s.totalDropsUnix.toNat + histTotal s ≤ s.totalDrops.toNat

theorem Conserved.succ {s s' : State} {n f f' : ℕ} (hc : Conserved s n f)
    (h1 : s'.totalDrops.toNat = s.totalDrops.toNat + 1)
    (h2 : ∑ i, (s'.totalDropsByType i).toNat = ∑ i, (s.totalDropsByType i).toNat + 1)
    (h3 : locTotal s' + f' = locTotal s + f + 1)
    (h4 : s'.totalDropsUnix.toNat + histTotal s' ≤ s.totalDropsUnix.toNat + histTotal s + 1) :
    Conserved s' (n + 1) f' :=
  ⟨by have := hc.le; omega, by rw [h2, hc.byType, h1], by have := hc.locs; omega,
    by have := hc.hists; omega⟩

theorem Conserved.mono {s : State} {n n' f : ℕ} (hc : Conserved s n f) (h : n ≤ n') :
    Conserved s n' f :=
  ⟨hc.le.trans h, hc.byType, hc.locs, hc.hists⟩

end Conservation

end PktDrop
