import PktDrop.Lifetime

/-! What a report prints: along every run in which every calloc succeeds, the stores hold the
counts of the current cycle's samples, and show_hist prints them in ascending key order. -/
namespace PktDrop

section Spec
variable (env : Env cap) (cfg : Config)

/-- The flows of the samples among ds that do_histogram attributes to the group k. -/
def flowsOf (k : UInt64) (ds : List (Data cap)) : List Flow :=
  ds.filterMap fun d =>
    if processesPacket env cfg d then ((attribution env cfg d).filter (·.1 = k)).map (·.2)
    else none

/-- The number of samples among ds that process_packet counts at the location l. -/
def dropsAt (l : UInt64) (ds : List (Data cap)) : ℕ :=
  ds.countP fun d => processesPacket env cfg d ∧ d.location = l

/-- The number of samples among ds that process_event hands to process_packet. -/
def packets (ds : List (Data cap)) : ℕ := ds.countP fun d => processesPacket env cfg d

theorem flowsOf_append (k : UInt64) (ds ds' : List (Data cap)) :
    flowsOf env cfg k (ds ++ ds') = flowsOf env cfg k ds ++ flowsOf env cfg k ds' :=
  List.filterMap_append _ _ _

theorem flowsOf_skip {d : Data cap} (hp : ¬ processesPacket env cfg d) (k : UInt64) :
    flowsOf env cfg k [d] = [] := by
  simp [flowsOf, hp]

theorem dropsAt_skip {d : Data cap} (hp : ¬ processesPacket env cfg d) (l : UInt64) :
    dropsAt env cfg l [d] = 0 := by
  simp [dropsAt, hp]

/-- A packet adds its flow to the group it is attributed to, and nothing to the others. -/
theorem flowsOf_packet {d : Data cap} (hp : processesPacket env cfg d) (k : UInt64) :
    flowsOf env cfg k [d] = match attribution env cfg d with
      | none => []
      | some (addr, fl) => if k = addr then [fl] else [] := by
  simp only [flowsOf, List.filterMap_cons, List.filterMap_nil, if_pos hp]
  rcases attribution env cfg d with _ | ⟨addr, fl⟩
  · rfl
  · by_cases hk : k = addr
    · simp [hk, Option.filter_some]
    · simp [Ne.symm hk, hk, Option.filter_some]

theorem dropsAt_packet {d : Data cap} (hp : processesPacket env cfg d) (l : UInt64) :
    dropsAt env cfg l [d] = if l = d.location then 1 else 0 := by
  by_cases hl : l = d.location <;> simp [dropsAt, hp, hl, eq_comm]

theorem length_flowsOf_le (k : UInt64) (ds : List (Data cap)) :
    (flowsOf env cfg k ds).length ≤ packets env cfg ds := by
  induction ds with
  | nil => exact le_rfl
  | cons d ds ih =>
    rw [packets, List.countP_cons, ← packets, ← List.singleton_append, flowsOf_append,
      List.length_append]
    by_cases hp : processesPacket env cfg d
    · have h1 : (flowsOf env cfg k [d]).length ≤ 1 := by
        rw [flowsOf_packet env cfg hp]
        split <;> (try split) <;> simp
      simp only [decide_eq_true hp, if_true]
      exact (Nat.add_comm _ _).le.trans (Nat.add_le_add ih h1)
    · simp only [flowsOf_skip env cfg hp, decide_eq_false hp]
      simpa using ih

theorem dropsAt_le (l : UInt64) (ds : List (Data cap)) : dropsAt env cfg l ds ≤ packets env cfg ds :=
  List.countP_mono_left fun d _ h => by simp only [decide_eq_true_eq] at h ⊢; exact h.1

end Spec

section Agreement
variable (cfg : Config)

/-- The flow records of a group hold the counts of the flows fs attributed to it: one record
per flow, whose hits is the number of its samples, a record for every attributed flow,
flow_count 0 and neither flag set. -/
structure RecordCounts (flb : FlowBuckets) (fs : List Flow) : Prop where
  nodup : flb.keys.Nodup
  hits : ∀ r ∈ flb.flows, r.hits.toNat = fs.count r.flow
  covered : ∀ f ∈ fs, f ∈ flb.keys
  flowCount : flb.flowCount = 0
  overflow : flb.overflow = false
  failures : flb.failures = false

theorem RecordCounts.empty : RecordCounts .empty [] :=
  ⟨List.nodup_nil, fun _ h => absurd h (List.not_mem_nil _),
    fun _ h => absurd h (List.not_mem_nil _), rfl, rfl, rfl⟩

/-- process_flow with its calloc succeeding: the record of the flow, found or new, is counted. -/
theorem RecordCounts.hit {flb : FlowBuckets} {fs : List Flow} (h : RecordCounts flb fs)
    (hn : fs.length + 1 < 2 ^ 32) (fl : Flow) :
    RecordCounts (processFlow true flb fl) (fs ++ [fl]) := by
  have hc : ∀ f, fs.count f + 1 < 2 ^ 32 := fun f => by have := List.count_le_length f fs; omega
  rw [processFlow_eq true flb fl h.nodup]
  cases ho : flowOutcome true flb fl with
  | overflow => exact absurd ho (flowOutcome_of_flowCount_zero h.flowCount true fl)
  | failure => exact absurd ho (by simp only [flowOutcome, if_true]; split_ifs <;> nofun)
  | hit =>
    refine ⟨by simpa [FlowBuckets.keys, Function.comp_def] using h.nodup, fun r hr => ?_,
      fun f hf => ?_, h.flowCount, h.overflow, h.failures⟩
    · obtain ⟨r₀, hr₀, rfl⟩ := List.mem_map.mp hr
      by_cases hf : r₀.flow = fl
      · simp only [bumpFlow, hf, if_true, List.count_append, List.count_singleton_self]
        rw [toNat_add_one, h.hits r₀ hr₀, hf, Nat.mod_eq_of_lt (hc fl)]
      · simp [bumpFlow, hf, List.count_append, h.hits r₀ hr₀, List.count_singleton, Ne.symm hf]
    · simp only [FlowBuckets.keys, List.map_map, Function.comp_def, bumpFlow_flow]
      rcases List.mem_append.mp hf with hf | hf
      · exact h.covered f hf
      · rw [List.mem_singleton.mp hf]; exact flowOutcome_eq_hit.mp ho
  | added =>
    have hk : fl ∉ flb.keys := fun hk => by simp [flowOutcome_eq_hit.mpr hk] at ho
    have h0 : fs.count fl = 0 := List.count_eq_zero.mpr fun hf => hk (h.covered fl hf)
    refine ⟨List.nodup_cons.mpr ⟨hk, h.nodup⟩, fun r hr => ?_, fun f hf => ?_, h.flowCount,
      h.overflow, h.failures⟩
    · rcases List.mem_cons.mp hr with rfl | hr
      · simp [List.count_append, h0]
      · have hne : r.flow ≠ fl := fun he => hk (he ▸ List.mem_map_of_mem _ hr)
        simp [List.count_append, h.hits r hr, List.count_singleton, Ne.symm hne]
    · rcases List.mem_append.mp hf with hf | hf
      · exact List.mem_cons_of_mem _ (h.covered f hf)
      · rw [List.mem_singleton.mp hf]; exact List.mem_cons_self _ _

/-- The sweep of show_flow_buckets keeps the surviving records with hits zeroed. -/
theorem RecordCounts.sweep {flb : FlowBuckets} {fs : List Flow} (h : RecordCounts flb fs) :
    RecordCounts (sweepFlows flb) [] where
  nodup := (sweepFlows_keys_sublist flb).nodup h.nodup
  hits r hr := by
    obtain ⟨r₀, -, hr₀⟩ := List.mem_filterMap.mp hr
    simp [(ageFlowEntry_eq_some hr₀).2]
  covered _ hf := absurd hf (List.not_mem_nil _)
  flowCount := h.flowCount
  overflow := h.overflow
  failures := h.failures

/-- A group entry, or its absence, holds the counts of the flows fs attributed to its key:
total_drops their number; outside flow mode and with drop_thresh at most 1, each bucket the
number of them of its class; in flow mode, its flow records those of each flow. -/
def GroupCounts : Option DropHist → List Flow → Prop
  | none, fs => fs = []
  | some e, fs => e.totalDrops.toNat = fs.length ∧
      (cfg.doHist ≠ .flow → cfg.dropThresh.toNat ≤ 1 →
        ∀ h, (e.buckets h).toNat = fs.countP fun fl => h ∈ refClassify fl) ∧
      (cfg.doHist = .flow → RecordCounts e.flb fs)

/-- A location entry, or its absence, holds the number n of drops counted at its address. -/
def LocCount : Option DropLoc → ℕ → Prop
  | none, n => n = 0
  | some e, n => e.totalDrops.toNat = n

/-- A drop attributed to a group: its entry, found or new, is counted. -/
theorem GroupCounts.hit {o : Option DropHist} {fs : List Flow} (h : GroupCounts cfg o fs)
    (hn : fs.length + 1 < 2 ^ 32) {e₀ : DropHist} {k : UInt64} (h₀ : e₀.Fresh k) (fl : Flow) :
    GroupCounts cfg ((o.or (some e₀)).map (countDrop cfg true fl)) (fs ++ [fl]) := by
  obtain ⟨e, he, ht, hb, hf⟩ : ∃ e, o.or (some e₀) = some e ∧ GroupCounts cfg (some e) fs := by
    cases o with
    | none =>
      cases h
      exact ⟨e₀, rfl, by simp [h₀.2.1], fun _ _ h => by simp [h₀.2.2.2.2.1],
        fun _ => h₀.2.2.2.2.2 ▸ RecordCounts.empty⟩
    | some e => exact ⟨e, rfl, h⟩
  rw [he, Option.map_some']
  refine ⟨?_, fun hm ht1 h => ?_, fun hm => ?_⟩
  · rw [(countDrop_fields cfg true fl e).2.2.1, toNat_add_one, ht, Nat.mod_eq_of_lt hn,
      List.length_append, List.length_singleton]
  · have hc := List.countP_le_length (fun fl => decide (h ∈ refClassify fl)) (l := fs)
    rw [countDrop_of_ne_flow hm, List.countP_append]
    dsimp only
    split_ifs with hh
    · rw [toNat_add_one, hb hm ht1 h, Nat.mod_eq_of_lt (by omega)]
      simp [hh]
    · simp [hb hm ht1 h, hh]
  · rw [(countDrop_fields cfg true fl e).2.2.2, if_pos hm]
    exact (hf hm).hit hn fl

/-- A drop counted at a location: its entry, found or new, is counted. -/
theorem LocCount.hit {o : Option DropLoc} {n : ℕ} (h : LocCount o n) (hn : n + 1 < 2 ^ 32)
    {e₀ : DropLoc} {l : UInt64} (h₀ : e₀.Fresh l) :
    LocCount ((o.or (some e₀)).map DropLoc.bump) (n + 1) := by
  cases o with
  | none => cases h; simp [LocCount, DropLoc.bump, h₀.2.1]
  | some e =>
    show (e.totalDrops + 1).toNat = n + 1
    rw [toNat_add_one, show e.totalDrops.toNat = n from h, Nat.mod_eq_of_lt hn]

/-- At a report a group entry starts the next cycle with zero counts, or is removed; with
drop_thresh at most 1 an entry below the threshold has no samples, so its buckets are zero. -/
theorem GroupCounts.report {o : Option DropHist} {fs : List Flow} (h : GroupCounts cfg o fs) :
    GroupCounts cfg ((o.map (reportEntry cfg)).filter (!·.dead)) [] := by
  cases o with
  | none => rfl
  | some e =>
    simp only [Option.map_some', Option.filter_some]
    split_ifs
    · refine ⟨by simp [(reportEntry_eq cfg e).2.2.2.1], fun hm hthresh j => ?_, fun hm => ?_⟩
      simp only [reportEntry, if_neg hm, showHistEntry]
      split_ifs with hlt
      · have hz : fs = [] := List.eq_nil_of_length_eq_zero <| by
          have : e.totalDrops.toNat < cfg.dropThresh.toNat := hlt
          have := h.1
          omega
        simpa [ageHist, hz] using h.2.1 hm hthresh j
      · rfl
      · rw [(reportEntry_eq cfg e).2.2.2.2, if_pos hm]
        exact (h.2.2 hm).sweep
    · rfl

theorem LocCount.report {o : Option DropLoc} {n : ℕ} (h : LocCount o n) :
    LocCount ((o.map ageLoc).filter (!·.dead)) 0 := by
  cases o with
  | none => rfl
  | some e =>
    simp only [Option.map_some', Option.filter_some]
    split_ifs <;> rfl

end Agreement

section Steps
variable (env : Env cap) (cfg : Config)

/-- The stores hold the counts of the samples ds of the cycle so far. -/
structure Counted (s : State) (ds : List (Data cap)) : Prop where
  wf : s.Wf
  hist : ∀ k, GroupCounts cfg (s.hist k) (flowsOf env cfg k ds)
  loc : ∀ l, LocCount (s.loc l) (dropsAt env cfg l ds)

theorem Counted.init : Counted env cfg State.init [] :=
  ⟨State.wf_init, fun _ => rfl, fun _ => rfl⟩

variable {env cfg}

/-- One event, every calloc succeeding, while the cycle's samples stay below 2^32. -/
theorem Counted.event {s : State} {ds : List (Data cap)} (h : Counted env cfg s ds) {d : Data cap}
    {r : State × List Line} (hr : processEvent env cfg d Alloc.ok s = some r)
    (hn : packets env cfg (ds ++ [d]) < 2 ^ 32) : Counted env cfg r.1 (ds ++ [d]) := by
  have hwf := processEvent_wf env cfg h.wf hr
  rcases processEvent_cases env cfg hr with ⟨hp, -, hr⟩ | ⟨hp, rfl⟩ | ⟨hx, rfl⟩
  · refine ⟨hwf, fun k => ?_, fun l => ?_⟩
    · rw [hr, flowsOf_append, flowsOf_skip env cfg hp, List.append_nil]; exact h.hist k
    · rw [hr, dropsAt, List.countP_append, ← dropsAt, ← dropsAt, dropsAt_skip env cfg hp]
      exact h.loc l
  · have hb : packets env cfg ds + 1 < 2 ^ 32 := by simpa [packets, hp] using hn
    refine ⟨hwf, fun k => ?_, fun l => ?_⟩
    · rw [processPacket_hist env cfg h.wf, flowsOf_append, flowsOf_packet env cfg hp]
      rcases attribution env cfg d with _ | ⟨addr, fl⟩
      · simpa using h.hist k
      · obtain ⟨e₀, he₀, h₀⟩ := newDroph_some env cfg s.nsid addr
        dsimp only
        split_ifs with hk
        · subst hk
          rw [he₀]
          exact (h.hist k).hit cfg (by have := length_flowsOf_le env cfg k ds; omega) h₀ fl
        · simpa using h.hist k
    · rw [processPacket_loc, countPacket_loc h.wf, dropsAt, List.countP_append, ← dropsAt,
        ← dropsAt, dropsAt_packet env cfg hp]
      split_ifs with hl
      · subst hl
        obtain ⟨e₀, he₀⟩ : ∃ e₀, newDropl Alloc.ok.dropl d.location
            ((env.findKsym d.location).map (·.name)) = some e₀ := ⟨_, rfl⟩
        rw [he₀]
        exact (h.loc _).hit (by have := dropsAt_le env cfg d.location ds; omega)
          (newDropl_fresh _ d.location _ e₀ he₀)
      · simpa using h.loc l
  · have hp : ¬ processesPacket env cfg d := fun hp => absurd (hx.symm.trans hp.1) (by decide)
    refine ⟨hwf, fun k => ?_, fun l => ?_⟩
    · rw [processExit_hist env cfg h.wf, flowsOf_append, flowsOf_skip env cfg hp, List.append_nil]
      have hk := h.hist k
      split_ifs
      · cases hs : s.hist k with
        | none => rw [hs] at hk; exact hk
        | some e => rw [hs] at hk; exact hk
      · exact hk
    · rw [processExit_loc, dropsAt, List.countP_append, ← dropsAt, ← dropsAt,
        dropsAt_skip env cfg hp]
      exact h.loc l

/-- The samples of a cycle, every calloc succeeding. -/
theorem Counted.events {s s' : State} {ds : List (Data cap)} (h : Counted env cfg s ds) :
    ∀ {es : List (Data cap)}, packets env cfg (ds ++ es) < 2 ^ 32 →
      run env cfg s (es.map fun d => .event d Alloc.ok) = some s' → Counted env cfg s' (ds ++ es)
  | [], _, hr => by cases hr; simpa using h
  | d :: es, hn, hr => by
    obtain ⟨r, hr₁, hr₂⟩ := Option.bind_eq_some.mp hr
    have hle : packets env cfg (ds ++ [d]) ≤ packets env cfg (ds ++ d :: es) := by
      simp only [packets, List.countP_append, List.countP_cons, List.countP_nil]
      omega
    simpa using (h.event hr₁ (by omega)).events (by simpa using hn) hr₂

/-- A report starts the next cycle with zero counts. -/
theorem Counted.report {s : State} {ds : List (Data cap)} (h : Counted env cfg s ds) :
    Counted env cfg (showHist cfg s).1 [] :=
  ⟨showHist_wf cfg h.wf,
    fun k => by rw [showHist_hist cfg h.wf]; exact (h.hist k).report cfg,
    fun l => by rw [showHist_loc cfg h.wf]; exact (h.loc l).report⟩

/-- Whole cycles, each with fewer than 2^32 samples for process_packet. -/
theorem Counted.cycles {s s' : State} (h : Counted env cfg s []) :
    ∀ {cs : List (List (Data cap))}, (∀ c ∈ cs, packets env cfg c < 2 ^ 32) →
      run env cfg s (cycleInputs cs) = some s' → Counted env cfg s' []
  | [], _, hr => by cases hr; exact h
  | c :: cs, hb, hr => by
    simp only [cycleInputs, List.flatMap_cons, List.append_assoc, run_append] at hr
    obtain ⟨s₁, hr₁, hr₂⟩ := Option.bind_eq_some.mp hr
    have hc := h.events (by simpa using hb c (List.mem_cons_self _ _)) hr₁
    rw [List.nil_append] at hc
    simp only [List.singleton_append, run, step, Option.some_bind] at hr₂
    exact hc.report.cycles (fun c' hc' => hb c' (List.mem_cons_of_mem _ hc'))
      (by simpa [cycleInputs] using hr₂)

end Steps

section Report
variable (env : Env cap) (cfg : Config)

theorem flatMap_ite_nil {α β : Type} (p : α → Prop) [DecidablePred p] (g : α → β) (l : List α) :
    l.flatMap (fun e => if p e then [] else [g e]) = (l.filter fun e => ¬ p e).map g := by
  induction l with
  | nil => rfl
  | cons a l ih => by_cases h : p a <;> simp [h, ih]

theorem eq_ofNat_of_toNat_eq {x : UInt32} {n : ℕ} (h : x.toNat = n) : x = UInt32.ofNat n := by
  apply UInt32.toNat.inj
  rw [UInt32.toNat_ofNat_of_lt (h ▸ UInt32.toNat_lt_size x), h]

/-- After whole cycles and the samples ds of the current one, the stores hold the counts of ds. -/
theorem counted_of_run {cs : List (List (Data cap))} {ds : List (Data cap)} {s : State}
    (hb : ∀ c ∈ ds :: cs, packets env cfg c < 2 ^ 32)
    (hr : run env cfg State.init (cycleInputs cs ++ ds.map fun d => .event d Alloc.ok) = some s) :
    Counted env cfg s ds := by
  rw [run_append] at hr
  obtain ⟨s₁, hr₁, hr₂⟩ := Option.bind_eq_some.mp hr
  have h₁ := (Counted.init env cfg).cycles (fun c hc => hb c (List.mem_cons_of_mem _ hc)) hr₁
  simpa using h₁.events (by simpa using hb ds (List.mem_cons_self _ _)) hr₂

/-- The rows of show_hist_buckets outside flow mode with drop_thresh 1: one row per group with
samples in the current cycle, in ascending key order, with its counts by shown class. -/
theorem showHistBuckets_rows (hmode : cfg.doHist ≠ .flow) (hthresh : cfg.dropThresh = 1)
    {cs : List (List (Data cap))} {ds : List (Data cap)} {s : State}
    (hb : ∀ c ∈ ds :: cs, packets env cfg c < 2 ^ 32)
    (hr : run env cfg State.init (cycleInputs cs ++ ds.map fun d => .event d Alloc.ok) = some s) :
    ∃ es : List DropHist, (es.map (·.addr)).Pairwise (· < ·) ∧ (∀ e ∈ es, s.hist e.addr = some e) ∧
      (∀ k, k ∈ es.map (·.addr) ↔ flowsOf env cfg k ds ≠ []) ∧
      (showHistBuckets cfg s.allDropHists).2 = es.map fun e =>
        .histRow (rowLabel cfg.doHist e)
          ((shownBuckets cfg).map fun h =>
            UInt32.ofNat ((flowsOf env cfg e.addr ds).countP fun fl => h ∈ refClassify fl))
          (UInt32.ofNat (flowsOf env cfg e.addr ds).length) := by
  have h := counted_of_run env cfg hb hr
  have ho := h.wf.hists
  have hcnt : ∀ e ∈ s.allDropHists.toList, GroupCounts cfg (some e) (flowsOf env cfg e.addr ds) :=
    fun e he => by simpa [State.hist, Tree.search_of_mem _ ho he] using h.hist e.addr
  have hpos : ∀ e ∈ s.allDropHists.toList,
      (¬ e.totalDrops < cfg.dropThresh ↔ flowsOf env cfg e.addr ds ≠ []) := fun e he => by
    have h1 : e.totalDrops.toNat = _ := (hcnt e he).1
    show ¬ e.totalDrops.toNat < cfg.dropThresh.toNat ↔ _
    rw [hthresh, h1, Ne, ← List.length_eq_zero]
    simp only [UInt32.toNat_ofNat, UInt32.size]
    omega
  refine ⟨s.allDropHists.toList.filter fun e => ¬ e.totalDrops < cfg.dropThresh,
    List.pairwise_map.mpr (ho.sublist (List.filter_sublist _)),
    fun e he => Tree.search_of_mem _ ho (List.mem_of_mem_filter he), fun k => ?_, ?_⟩
  · simp only [List.mem_map, List.mem_filter, decide_eq_true_eq]
    constructor
    · rintro ⟨e, ⟨he, hp⟩, rfl⟩
      exact (hpos e he).mp hp
    · intro hk
      cases hs : s.hist k with
      | none => exact absurd (by simpa [hs, GroupCounts] using h.hist k) hk
      | some e =>
        obtain ⟨he, rfl⟩ := (Tree.search_eq_some_iff _ ho).mp hs
        exact ⟨e, ⟨he, (hpos e he).mpr hk⟩, rfl⟩
  · have hlines : ∀ e : DropHist, (showHistEntry cfg e).2 = if e.totalDrops < cfg.dropThresh then []
        else [.histRow (rowLabel cfg.doHist e) ((shownBuckets cfg).map e.buckets) e.totalDrops] :=
      fun e => by unfold showHistEntry; split_ifs <;> rfl
    simp only [showHistBuckets, Tree.sweep, hlines, flatMap_ite_nil]
    refine List.map_congr_left fun e he => ?_
    have hc := hcnt e (List.mem_of_mem_filter he)
    rw [eq_ofNat_of_toNat_eq hc.1]
    congr 1
    exact List.map_congr_left fun j _ =>
      eq_ofNat_of_toNat_eq (hc.2.1 hmode (by rw [hthresh]; rfl) j)

theorem showHistBuckets_rows_one_sample :
    let env : Env 4 := ⟨fun _ => none, fun _ => some Flow.zero⟩
    let cfg := Config.ofMode .netns
    let d : Data 4 := ⟨.sample, 0x10, 0x1000, 0, 60, 0, 0, .replicate 4 0⟩
    cfg.doHist ≠ .flow ∧ cfg.dropThresh = 1 ∧ (∀ c ∈ [[d]], packets env cfg c < 2 ^ 32) ∧
      ∃ s, run env cfg State.init (cycleInputs [] ++ [d].map fun d => .event d Alloc.ok) = some s ∧
        ∃ es : List DropHist, (es.map (·.addr)).Pairwise (· < ·) ∧
          (∀ e ∈ es, s.hist e.addr = some e) ∧
          (∀ k, k ∈ es.map (·.addr) ↔ flowsOf env cfg k [d] ≠ []) ∧
          (showHistBuckets cfg s.allDropHists).2 = es.map fun e =>
            .histRow (rowLabel cfg.doHist e)
              ((shownBuckets cfg).map fun h =>
                UInt32.ofNat ((flowsOf env cfg e.addr [d]).countP fun fl => h ∈ refClassify fl))
              (UInt32.ofNat (flowsOf env cfg e.addr [d]).length) := by
  intro env cfg d
  have hb : ∀ c ∈ [[d]], packets env cfg c < 2 ^ 32 := by decide
  exact ⟨by decide, rfl, hb, _, rfl, showHistBuckets_rows env cfg (by decide) rfl hb rfl⟩

theorem filterMap_ite_some {α β : Type} (p : α → Bool) (g : α → β) (l : List α) :
    l.filterMap (fun x => if p x then some (g x) else none) = (l.filter p).map g := by
  induction l with
  | nil => rfl
  | cons a l ih => by_cases h : p a <;> simp [h, ih]

/-- The lines of show_flow_buckets: for each group with at least drop_thresh samples in the
current cycle, in key order, a hits line per distinct flow with its count, then an empty line. -/
theorem showFlowBuckets_lines (hmode : cfg.doHist = .flow) {cs : List (List (Data cap))}
    {ds : List (Data cap)} {s : State} (hb : ∀ c ∈ ds :: cs, packets env cfg c < 2 ^ 32)
    (hr : run env cfg State.init (cycleInputs cs ++ ds.map fun d => .event d Alloc.ok) = some s) :
    (s.allDropHists.toList.map (·.addr)).Pairwise (· < ·) ∧
    (showFlowBuckets cfg s.allDropHists).2 = s.allDropHists.toList.flatMap (fun e =>
      if cfg.dropThresh.toNat ≤ (flowsOf env cfg e.addr ds).length then
        ((e.flb.flows.filter (·.hits ≠ 0)).map fun r =>
          Line.flowHits (UInt32.ofNat ((flowsOf env cfg e.addr ds).count r.flow)) r.flow) ++
          [.msg ""]
      else []) ∧
    ∀ e ∈ s.allDropHists.toList, ((e.flb.flows.filter (·.hits ≠ 0)).map (·.flow)).Nodup ∧
      ∀ f, f ∈ (e.flb.flows.filter (·.hits ≠ 0)).map (·.flow) ↔ f ∈ flowsOf env cfg e.addr ds := by
  have h := counted_of_run env cfg hb hr
  have ho := h.wf.hists
  have hcnt : ∀ e ∈ s.allDropHists.toList, GroupCounts cfg (some e) (flowsOf env cfg e.addr ds) :=
    fun e he => by simpa [State.hist, Tree.search_of_mem _ ho he] using h.hist e.addr
  refine ⟨List.pairwise_map.mpr ho, ?_, fun e he => ?_⟩
  · simp only [showFlowBuckets, Tree.sweep]
    refine List.flatMap_congr fun e he => ?_
    have hc := hcnt e he
    have rc := hc.2.2 hmode
    have hshow : decide (e.totalDrops ≥ cfg.dropThresh) =
        decide (cfg.dropThresh.toNat ≤ (flowsOf env cfg e.addr ds).length) := by
      rw [← hc.1]; rfl
    simp only [showFlowEntry, flagLines, rc.overflow, rc.failures, hshow, Bool.false_eq_true,
      if_false, List.append_nil]
    by_cases hs : cfg.dropThresh.toNat ≤ (flowsOf env cfg e.addr ds).length
    · simp only [hs, decide_True, Bool.true_and, if_true, filterMap_ite_some]
      congr 1
      exact List.map_congr_left fun r hr => by
        rw [eq_ofNat_of_toNat_eq (rc.hits r (List.mem_of_mem_filter hr))]
    · simp [hs]
  · have rc := (hcnt e he).2.2 hmode
    refine ⟨(List.Sublist.map _ (List.filter_sublist _)).nodup rc.nodup, fun f => ?_⟩
    simp only [List.mem_map, List.mem_filter, ne_eq, decide_eq_true_eq]
    constructor
    · rintro ⟨r, ⟨hr, hz⟩, rfl⟩
      have hpos : 0 < r.hits.toNat := Nat.pos_of_ne_zero fun h0 => hz (UInt32.toNat.inj h0)
      exact List.count_pos_iff.mp (rc.hits r hr ▸ hpos)
    · intro hf
      obtain ⟨r, hr, rfl⟩ := List.mem_map.mp (rc.covered f hf)
      refine ⟨r, ⟨hr, fun hz => ?_⟩, rfl⟩
      have := rc.hits r hr
      rw [hz] at this
      exact absurd (List.count_pos_iff.mpr hf) (by simp [← this])

theorem showFlowBuckets_lines_one_sample :
    let env : Env 4 := ⟨fun _ => none, fun _ => some Flow.zero⟩
    let cfg := Config.ofMode .flow
    let d : Data 4 := ⟨.sample, 0x10, 0x1000, 0, 60, 0, 0, .replicate 4 0⟩
    cfg.doHist = .flow ∧ (∀ c ∈ [[d]], packets env cfg c < 2 ^ 32) ∧
      ∃ s, run env cfg State.init (cycleInputs [] ++ [d].map fun d => .event d Alloc.ok) = some s ∧
        (s.allDropHists.toList.map (·.addr)).Pairwise (· < ·) ∧
        (showFlowBuckets cfg s.allDropHists).2 = s.allDropHists.toList.flatMap (fun e =>
          if cfg.dropThresh.toNat ≤ (flowsOf env cfg e.addr [d]).length then
            ((e.flb.flows.filter (·.hits ≠ 0)).map fun r =>
              Line.flowHits (UInt32.ofNat ((flowsOf env cfg e.addr [d]).count r.flow)) r.flow) ++
              [.msg ""]
          else []) ∧
        ∀ e ∈ s.allDropHists.toList, ((e.flb.flows.filter (·.hits ≠ 0)).map (·.flow)).Nodup ∧
          ∀ f, f ∈ (e.flb.flows.filter (·.hits ≠ 0)).map (·.flow) ↔
            f ∈ flowsOf env cfg e.addr [d] := by
  intro env cfg d
  have hb : ∀ c ∈ [[d]], packets env cfg c < 2 ^ 32 := by decide
  exact ⟨rfl, hb, _, rfl, showFlowBuckets_lines env cfg rfl hb rfl⟩

/-- The location lines of show_loc_entries: one line per location with samples in the current
cycle, in ascending address order, with its number of samples. -/
theorem showLocEntries_lines {cs : List (List (Data cap))} {ds : List (Data cap)} {s : State}
    (hb : ∀ c ∈ ds :: cs, packets env cfg c < 2 ^ 32)
    (hr : run env cfg State.init (cycleInputs cs ++ ds.map fun d => .event d Alloc.ok) = some s) :
    ∃ ls : List DropLoc, (ls.map (·.addr)).Pairwise (· < ·) ∧ (∀ e ∈ ls, s.loc e.addr = some e) ∧
      (∀ l, l ∈ ls.map (·.addr) ↔ dropsAt env cfg l ds ≠ 0) ∧
      (showLocEntries s.allDropLoc).2 =
        .msg "" :: ls.map fun e => .loc e.name (UInt32.ofNat (dropsAt env cfg e.addr ds)) := by
  have h := counted_of_run env cfg hb hr
  have ho := h.wf.locs
  have hcnt : ∀ e ∈ s.allDropLoc.toList, e.totalDrops.toNat = dropsAt env cfg e.addr ds :=
    fun e he => by simpa [State.loc, Tree.search_of_mem _ ho he, LocCount] using h.loc e.addr
  have hpos : ∀ e ∈ s.allDropLoc.toList, (e.totalDrops ≠ 0 ↔ dropsAt env cfg e.addr ds ≠ 0) :=
    fun e he => by
      rw [← hcnt e he]
      exact not_congr ⟨fun h => h ▸ rfl, fun h => UInt32.toNat.inj h⟩
  refine ⟨s.allDropLoc.toList.filter fun e => e.totalDrops ≠ 0,
    List.pairwise_map.mpr (ho.sublist (List.filter_sublist _)),
    fun e he => Tree.search_of_mem _ ho (List.mem_of_mem_filter he), fun l => ?_, ?_⟩
  · simp only [List.mem_map, List.mem_filter, decide_eq_true_eq]
    constructor
    · rintro ⟨e, ⟨he, hp⟩, rfl⟩
      exact (hpos e he).mp hp
    · intro hl
      cases hs : s.loc l with
      | none => exact absurd (by simpa [hs, LocCount] using h.loc l) hl
      | some e =>
        obtain ⟨he, rfl⟩ := (Tree.search_eq_some_iff _ ho).mp hs
        exact ⟨e, ⟨he, (hpos e he).mpr hl⟩, rfl⟩
  · have hlines : ∀ e : DropLoc, (showLocEntry e).2 =
        if ¬ e.totalDrops ≠ 0 then [] else [.loc e.name e.totalDrops] :=
      fun e => (ite_not _ _ _).symm
    simp only [showLocEntries, Tree.sweep, hlines, flatMap_ite_nil, not_not]
    congr 1
    exact List.map_congr_left fun e he => by
      rw [eq_ofNat_of_toNat_eq (hcnt e (List.mem_of_mem_filter he))]

theorem showLocEntries_lines_one_sample :
    let env : Env 4 := ⟨fun _ => none, fun _ => some Flow.zero⟩
    let cfg := Config.ofMode .netns
    let d : Data 4 := ⟨.sample, 0x10, 0x1000, 0, 60, 0, 0, .replicate 4 0⟩
    (∀ c ∈ [[d]], packets env cfg c < 2 ^ 32) ∧
      ∃ s, run env cfg State.init (cycleInputs [] ++ [d].map fun d => .event d Alloc.ok) = some s ∧
        ∃ ls : List DropLoc, (ls.map (·.addr)).Pairwise (· < ·) ∧
          (∀ e ∈ ls, s.loc e.addr = some e) ∧
          (∀ l, l ∈ ls.map (·.addr) ↔ dropsAt env cfg l [d] ≠ 0) ∧
          (showLocEntries s.allDropLoc).2 =
            .msg "" :: ls.map fun e => .loc e.name (UInt32.ofNat (dropsAt env cfg e.addr [d])) := by
  intro env cfg d
  have hb : ∀ c ∈ [[d]], packets env cfg c < 2 ^ 32 := by decide
  exact ⟨hb, _, rfl, showLocEntries_lines env cfg hb rfl⟩

end Report

section Hidden
variable (env : Env cap) (cfg : Config)

/-- The buckets an IPv4 packet is never counted in: those hist_disable_non_ipv4 hides, and OTHER. -/
def NonIpv4 (h : Hist) : Prop := histDisableNonIpv4 h = true ∨ h = .other

theorem refTransport_subset (t : FlowTransport) :
    refTransport t ⊆ [.tcp, .tcpFin, .tcpRst, .tcpSyn, .udp, .vrrp] := by
  unfold refTransport
  split_ifs <;> decide

theorem not_mem_refClassify_of_ipv4 {fl : Flow} (hp : fl.proto = ethPIp) {h : Hist}
    (hh : NonIpv4 h) : h ∉ refClassify fl := by
  rw [refClassify, if_neg (by rw [hp]; decide), if_neg (by rw [hp]; decide), if_pos hp]
  intro hm
  have hni : ∀ x ∈ ([.ipv4, .tcp, .tcpFin, .tcpRst, .tcpSyn, .udp, .vrrp] : List Hist),
      ¬ (histDisableNonIpv4 x = true ∨ x = .other) := by decide
  exact hni h (List.cons_subset_cons _ (refTransport_subset _) hm) hh

/-- Every group entry has its NonIpv4 buckets at 0. -/
def IpOnly (s : State) : Prop := ∀ k e, s.hist k = some e → ∀ h, NonIpv4 h → e.buckets h = 0

variable {env cfg}
variable (hmode : cfg.doHist = .dip ∨ cfg.doHist = .sip)
include hmode

theorem IpOnly.histogram {s : State} (hs : s.Wf) (hi : IpOnly s) (a : Alloc) (fl : Flow)
    (netns : UInt64) : IpOnly (doHistogram env cfg a fl netns s).1 := by
  have hnf : cfg.doHist ≠ .flow := by rcases hmode with h | h <;> rw [h] <;> decide
  intro k e he h hh
  rw [doHistogram_hist env cfg hs] at he
  cases hk : histKey cfg.doHist fl netns with
  | none => rw [hk] at he; exact hi k e he h hh
  | some addr =>
    have hp : fl.proto = ethPIp := by
      by_contra hne
      rcases hmode with hm | hm <;> simp [hm, histKey, hne] at hk
    rw [hk] at he
    dsimp only at he
    split_ifs at he with hka
    · obtain ⟨e', he', rfl⟩ := Option.map_eq_some'.mp he
      have h0 : e'.buckets h = 0 := by
        cases ho : s.hist addr with
        | some e'' => rw [ho] at he'; cases he'; exact hi addr _ ho h hh
        | none =>
          rw [ho] at he'
          exact congrFun (newDroph_fresh env cfg a.droph s.nsid addr e' he').2.2.2.2.1 h
      simp [countDrop_of_ne_flow hnf, h0, not_mem_refClassify_of_ipv4 hp hh]
    · exact hi k e he h hh

theorem IpOnly.event {s : State} (hs : s.Wf) (hi : IpOnly s) {d : Data cap} {a : Alloc}
    {r : State × List Line} (hr : processEvent env cfg d a s = some r) : IpOnly r.1 := by
  rcases processEvent_cases env cfg hr with ⟨-, -, hr⟩ | ⟨-, rfl⟩ | ⟨-, rfl⟩
  · rw [hr]; exact hi
  · have hc : IpOnly (countPacket a d (env.findKsym d.location) s) := hi
    unfold processPacket
    split_ifs
    · exact hc
    · split
      · exact hc
      · exact hc.histogram hmode (countPacket_wf hs _ d _) a _ _
  · intro k e he h hh
    rw [processExit_hist env cfg hs] at he
    split_ifs at he
    · obtain ⟨e', he', rfl⟩ := Option.map_eq_some'.mp he
      exact hi k e' he' h hh
    · exact hi k e he h hh

theorem IpOnly.report {s : State} (hs : s.Wf) (hi : IpOnly s) : IpOnly (showHist cfg s).1 := by
  have hnf : cfg.doHist ≠ .flow := by rcases hmode with h | h <;> rw [h] <;> decide
  intro k e he h hh
  rw [showHist_hist cfg hs] at he
  cases ho : s.hist k with
  | none => rw [ho] at he; cases he
  | some e' =>
    rw [ho] at he
    simp only [Option.map_some', Option.filter_some] at he
    split_ifs at he
    cases he
    simp only [reportEntry, if_neg hnf, showHistEntry]
    split_ifs
    · exact hi k e' ho h hh
    · rfl

theorem IpOnly.run {is : List (Input cap)} {s s' : State} (hs : s.Wf) (hi : IpOnly s)
    (hr : run env cfg s is = some s') : IpOnly s' := by
  induction is generalizing s with
  | nil => cases hr; exact hi
  | cons i is ih =>
    obtain ⟨r, hr₁, hr₂⟩ := Option.bind_eq_some.mp hr
    cases i with
    | event d a => exact ih (processEvent_wf env cfg hs hr₁) (hi.event hmode hs hr₁) hr₂
    | report => cases hr₁; exact ih (showHist_wf cfg hs) (hi.report hmode hs) hr₂

omit hmode in
theorem ipOnly_init : IpOnly (State.init) := fun _ _ he => by cases he

/-- The columns hist_disable_non_ipv4 hides lose nothing: in dip and sip mode only IPv4 packets
reach a group, so its LLDP, ARP, IPv6 and OTHER buckets stay 0 along every run. -/
theorem hidden_buckets_zero {is : List (Input cap)} {s : State}
    (hr : run env cfg State.init is = some s) :
    ∀ e ∈ s.allDropHists.toList, ∀ h, histDisableNonIpv4 h = true ∨ h = .other →
      e.buckets h = 0 := fun e he h hh =>
  (ipOnly_init.run hmode State.wf_init hr) e.addr e
    (Tree.search_of_mem _ (run_wf is State.wf_init hr).hists he) h hh

end Hidden

theorem hidden_buckets_zero_one_ipv4 :
    let env : Env 4 := ⟨fun _ => none, fun _ => some { Flow.zero with proto := ethPIp }⟩
    let cfg := Config.ofMode .dip
    let d : Data 4 := ⟨.sample, 0x10, 0x1000, 0, 60, ethPIp, 0, .replicate 4 0⟩
    (cfg.doHist = .dip ∨ cfg.doHist = .sip) ∧
      ∃ s, run env cfg State.init [.event d Alloc.ok, .report] = some s ∧
        ∀ e ∈ s.allDropHists.toList, ∀ h, histDisableNonIpv4 h = true ∨ h = .other →
          e.buckets h = 0 := by
  intro env cfg d
  exact ⟨Or.inl rfl, _, rfl,
    @hidden_buckets_zero 4 env cfg (Or.inl rfl) [.event d Alloc.ok, .report] _ rfl⟩

end PktDrop
