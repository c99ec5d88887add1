import PktDrop.Report

/-! One flow-mode group over its lifetime: the samples do_histogram counts for it (total_drops++
and process_flow) and its turns in show_flow_buckets. flow_count is never written, so the
capacity test of process_flow never fires. -/
namespace PktDrop

section Bucket

/-- Distinct flows whose callocs succeed are all added to a bucket that flow_count leaves
unbounded. -/
theorem processFlow_distinct (fs : List Flow) (hd : fs.Nodup) (flb : FlowBuckets)
    (hc : flb.flowCount = 0) (hk : ∀ f ∈ fs, f ∉ flb.keys) :
    (fs.foldl (processFlow true) flb).keys = fs.reverse ++ flb.keys ∧
      (fs.foldl (processFlow true) flb).overflow = flb.overflow := by
  induction fs generalizing flb with
  | nil => simp
  | cons f fs ih =>
    rw [List.nodup_cons] at hd
    have hn : hitFlow f flb.flows = none := hitFlow_eq_none.mpr (hk f (List.mem_cons_self _ _))
    have hstep : processFlow true flb f = { flb with flows := ⟨1, 0, f⟩ :: flb.flows } := by
      simp [processFlow, hn, hc, maxFlowEntries]
    have hk' : ∀ g ∈ fs, g ∉ (processFlow true flb f).keys := fun g hg hg' => by
      rw [hstep] at hg'
      rcases List.mem_cons.mp hg' with rfl | hg'
      exacts [hd.1 hg, hk g (List.mem_cons_of_mem _ hg) hg']
    obtain ⟨h1, h2⟩ := ih hd.2 _ (by rw [processFlow_flowCount, hc]) hk'
    rw [List.foldl_cons, h1, h2, hstep]
    simp [FlowBuckets.keys]

/-- Flows told apart by their VLAN tag alone. -/
def vlanTagged (i : ℕ) : Flow := { Flow.zero with outerVlanTCI := UInt16.ofNat i }

/-- Past MAX_FLOW_ENTRIES: after 25 distinct flows, a 26th is added as a 26th record and
overflow stays clear. -/
theorem processFlow_past_capacity :
    let flb : FlowBuckets := ((List.range 25).map vlanTagged).foldl (processFlow true) .empty
    flb.flows.length = 25 ∧ (processFlow true flb (vlanTagged 25)).flows.length = 26 ∧
      (processFlow true flb (vlanTagged 25)).overflow = false := by
  have h := processFlow_distinct ((List.range 26).map vlanTagged) (by decide) .empty rfl
    (by simp [FlowBuckets.empty, FlowBuckets.keys])
  have h25 := processFlow_distinct ((List.range 25).map vlanTagged) (by decide) .empty rfl
    (by simp [FlowBuckets.empty, FlowBuckets.keys])
  rw [List.range_succ, List.map_append, List.foldl_append] at h
  have l25 := congrArg List.length h25.1
  have l26 := congrArg List.length h.1
  simp only [FlowBuckets.keys, List.length_map, List.length_append, List.length_reverse,
    List.length_range, FlowBuckets.empty, List.length_nil] at l25 l26
  exact ⟨l25, l26, h.2⟩

end Bucket

section Group

/-- What happens to one flow-mode group: a sample do_histogram counts for it, with the outcome
of process_flow's calloc, or its turn in show_flow_buckets. -/
inductive GroupOp
  | hit (fl : Flow) (alloc : Bool)
  | sweep

/-- process_flow calls on a group, each with the branch it took. -/
abbrev Calls := List (Flow × FlowOutcome)

/-- One operation on a group, with the calls since its last sweep and since its creation. -/
def GroupOp.step (cfg : Config) : DropHist × Calls × Calls → GroupOp → DropHist × Calls × Calls
  | (e, cyc, all), .hit fl a =>
    (countDrop cfg a fl e, cyc ++ [(fl, flowOutcome a e.flb fl)], all ++ [(fl, flowOutcome a e.flb fl)])
  | (e, _, all), .sweep => ((showFlowEntry cfg e).1, [], all)

/-- A group's history from e. -/
def GroupOp.run (cfg : Config) (e : DropHist) (ops : List GroupOp) : DropHist × Calls × Calls :=
  ops.foldl (GroupOp.step cfg) (e, [], [])

/-- The accepted calls with flow f. -/
def acceptedFor (f : Flow) (cs : Calls) : ℕ := cs.countP (fun c => c.1 = f ∧ c.2.accepted)

/-- The calls process_flow rejected, at capacity or on a failed calloc. -/
def rejected (cs : Calls) : ℕ := cs.countP (fun c => !c.2.accepted)

/-- What a group's counters say about the calls since its last sweep. -/
structure Tallied (e : DropHist) (cyc : Calls) : Prop where
  nodup : e.flb.keys.Nodup
  hits : ∀ r ∈ e.flb.flows, r.hits.toNat = acceptedFor r.flow cyc % 2 ^ 32
  covered : ∀ c ∈ cyc, c.2.accepted → c.1 ∈ e.flb.keys
  total : e.totalDrops.toNat = cyc.length % 2 ^ 32

theorem acceptedFor_snoc (f : Flow) (cs : Calls) (c : Flow × FlowOutcome) :
    acceptedFor f (cs ++ [c]) = acceptedFor f cs + if c.1 = f ∧ c.2.accepted then 1 else 0 := by
  by_cases hc : c.1 = f ∧ c.2.accepted <;> simp [acceptedFor, List.countP_append, hc]

theorem mod_succ_mod (n : ℕ) : (n % 2 ^ 32 + 1) % 2 ^ 32 = (n + 1) % 2 ^ 32 := by omega

/-- A rejected call leaves the records as they are. -/
theorem tallied_reject {e : DropHist} {cyc : Calls} (h : Tallied e cyc) {fl : Flow}
    {o : FlowOutcome} (ho : o.accepted = false) {flb : FlowBuckets} (hf : flb.flows = e.flb.flows) :
    Tallied { e with totalDrops := e.totalDrops + 1, flb := flb } (cyc ++ [(fl, o)]) where
  nodup := by simpa [FlowBuckets.keys, hf] using h.nodup
  hits r hr := by
    rw [hf] at hr
    simp [acceptedFor_snoc, ho, h.hits r hr]
  covered c hc hacc := by
    rcases List.mem_append.mp hc with hc | hc
    · simpa [FlowBuckets.keys, hf] using h.covered c hc hacc
    · simp_all
  total := by simp [toNat_add_one, h.total, mod_succ_mod]

/-- A sweep keeps the surviving records with hits zeroed and zeroes total_drops. -/
theorem tallied_sweep (cfg : Config) {e : DropHist} {cyc : Calls} (h : Tallied e cyc) :
    Tallied (showFlowEntry cfg e).1 [] where
  nodup := (sweepFlows_keys_sublist e.flb).nodup h.nodup
  hits r hr := by
    obtain ⟨r₀, -, hr₀⟩ := List.mem_filterMap.mp hr
    simp [(ageFlowEntry_eq_some hr₀).2, acceptedFor]
  covered _ hc := absurd hc (List.not_mem_nil _)
  total := rfl

theorem countP_add_countP_of_disjoint {α : Type} {p q : α → Bool} (l : List α)
    (h : ∀ x ∈ l, p x → q x → False) :
    l.countP p + l.countP q = l.countP (fun x => p x || q x) := by
  induction l with
  | nil => rfl
  | cons x l ih =>
    have hx := h x (List.mem_cons_self _ _)
    rw [List.countP_cons, List.countP_cons, List.countP_cons,
      ← ih fun y hy => h y (List.mem_cons_of_mem _ hy)]
    cases hp : p x <;> cases hq : q x <;> simp [hp, hq] at hx ⊢ <;> omega

/-- Over distinct flows, the accepted calls of each add up to the accepted calls of any. -/
theorem sum_acceptedFor (cs : Calls) {ks : List Flow} (hk : ks.Nodup) :
    (ks.map (acceptedFor · cs)).sum = cs.countP (fun c => c.1 ∈ ks ∧ c.2.accepted) := by
  induction ks with
  | nil => simp
  | cons k ks ih =>
    rw [List.nodup_cons] at hk
    rw [List.map_cons, List.sum_cons, ih hk.2, acceptedFor, countP_add_countP_of_disjoint]
    · exact List.countP_congr fun c _ => by simp [or_and_right]
    · intro c _ h₁ h₂
      simp only [decide_eq_true_eq, Bool.and_eq_true] at h₁ h₂
      exact hk.1 (h₁.1 ▸ h₂.1)

/-- The counters of a tallied group: hits add up, with the rejected calls, to total_drops. -/
theorem Tallied.total_eq {e : DropHist} {cyc : Calls} (h : Tallied e cyc) :
    e.totalDrops.toNat = ((e.flb.flows.map (·.hits.toNat)).sum + rejected cyc) % 2 ^ 32 := by
  have hacc : (e.flb.keys.map (acceptedFor · cyc)).sum = cyc.countP (·.2.accepted) :=
    (sum_acceptedFor cyc h.nodup).trans
      (List.countP_congr fun c hc => by simpa using fun hacc => h.covered c hc hacc)
  have hlen : cyc.length = cyc.countP (·.2.accepted) + rejected cyc := by
    rw [List.length_eq_countP_add_countP (·.2.accepted)]
    simp [rejected]
  have hsum : (e.flb.flows.map (·.hits.toNat)).sum =
      ((e.flb.keys.map (acceptedFor · cyc)).map (· % 2 ^ 32)).sum := by
    simp only [FlowBuckets.keys, List.map_map]
    exact congrArg List.sum (List.map_congr_left fun r hr => h.hits r hr)
  rw [h.total, hsum, Nat.add_mod, ← List.sum_nat_mod, hacc, ← Nat.add_mod, hlen]

variable {cfg : Config} (hflow : cfg.doHist = .flow)
include hflow

theorem countDrop_flow (a : Bool) (fl : Flow) (e : DropHist) :
    countDrop cfg a fl e =
      { e with totalDrops := e.totalDrops + 1, flb := processFlow a e.flb fl } := by
  simp [countDrop, hflow]

theorem tallied_hit {e : DropHist} {cyc : Calls} (h : Tallied e cyc) (fl : Flow) (a : Bool) :
    Tallied (countDrop cfg a fl e) (cyc ++ [(fl, flowOutcome a e.flb fl)]) := by
  rw [countDrop_flow hflow, processFlow_eq a e.flb fl h.nodup]
  cases ho : flowOutcome a e.flb fl with
  | overflow => exact tallied_reject h (by rfl) rfl
  | failure => exact tallied_reject h (by rfl) rfl
  | hit =>
    have hk := flowOutcome_eq_hit.mp ho
    refine ⟨by simpa [FlowBuckets.keys, List.map_map, Function.comp_def] using h.nodup, ?_, ?_,
      by simp [toNat_add_one, h.total, mod_succ_mod]⟩
    · intro r hr
      obtain ⟨r₀, hr₀, rfl⟩ := List.mem_map.mp hr
      by_cases hf : r₀.flow = fl
      · simp [bumpFlow, hf, acceptedFor_snoc, FlowOutcome.accepted, toNat_add_one, h.hits r₀ hr₀,
          mod_succ_mod]
      · simp [bumpFlow, hf, acceptedFor_snoc, h.hits r₀ hr₀, Ne.symm hf]
    · intro c hc hacc
      simp only [FlowBuckets.keys, List.map_map, Function.comp_def, bumpFlow_flow]
      rcases List.mem_append.mp hc with hc | hc
      · exact h.covered c hc hacc
      · simp only [List.mem_singleton] at hc; subst hc; exact hk
  | added =>
    have hk : fl ∉ e.flb.keys := fun hk => by simp [flowOutcome_eq_hit.mpr hk] at ho
    have h0 : acceptedFor fl cyc = 0 := List.countP_eq_zero.mpr fun c hc hp => by
      simp only [Bool.and_eq_true, decide_eq_true_eq] at hp
      exact hk (hp.1 ▸ h.covered c hc hp.2)
    refine ⟨List.nodup_cons.mpr ⟨hk, h.nodup⟩, ?_, ?_,
      by simp [toNat_add_one, h.total, mod_succ_mod]⟩
    · intro r hr
      rcases List.mem_cons.mp hr with rfl | hr
      · simp [acceptedFor_snoc, h0, FlowOutcome.accepted]
      · have hne : r.flow ≠ fl := fun he => hk (he ▸ List.mem_map_of_mem _ hr)
        simp [acceptedFor_snoc, h.hits r hr, Ne.symm hne]
    · intro c hc hacc
      rcases List.mem_append.mp hc with hc | hc
      · exact List.mem_cons_of_mem _ (h.covered c hc hacc)
      · simp only [List.mem_singleton] at hc; subst hc; exact List.mem_cons_self _ _

theorem tallied_step {x : DropHist × Calls × Calls} (h : Tallied x.1 x.2.1) (op : GroupOp) :
    Tallied (GroupOp.step cfg x op).1 (GroupOp.step cfg x op).2.1 := by
  obtain ⟨e, cyc, all⟩ := x
  cases op with
  | hit fl a => exact tallied_hit hflow h fl a
  | sweep => exact tallied_sweep cfg h

theorem tallied_run (ops : List GroupOp) {x : DropHist × Calls × Calls} (h : Tallied x.1 x.2.1) :
    Tallied (ops.foldl (GroupOp.step cfg) x).1 (ops.foldl (GroupOp.step cfg) x).2.1 := by
  induction ops generalizing x with
  | nil => exact h
  | cons op ops ih => exact ih (tallied_step hflow h op)

/-- In flow mode, along any history of a group: distinct flows in its records, each with its
accepted calls since the last sweep as hits, and total_drops the hits plus the rejected calls. -/
theorem flow_bucket_tally (ops : List GroupOp) (e₀ : DropHist) (hflb : e₀.flb = .empty)
    (htot : e₀.totalDrops = 0) :
    let r := GroupOp.run cfg e₀ ops
    r.1.flb.keys.Nodup ∧
      (∀ x ∈ r.1.flb.flows, x.hits.toNat = acceptedFor x.flow r.2.1 % 2 ^ 32) ∧
      r.1.totalDrops.toNat = ((r.1.flb.flows.map (·.hits.toNat)).sum + rejected r.2.1) % 2 ^ 32 := by
  have h₀ : Tallied e₀ [] :=
    ⟨by simp [hflb, FlowBuckets.keys, FlowBuckets.empty], by simp [hflb, FlowBuckets.empty],
      fun _ hc => absurd hc (List.not_mem_nil _), by simp [htot]⟩
  have h : Tallied (GroupOp.run cfg e₀ ops).1 (GroupOp.run cfg e₀ ops).2.1 :=
    tallied_run hflow ops h₀
  exact ⟨h.nodup, h.hits, h.total_eq⟩

omit hflow in
/-- A calloc failure, then the same flow again: two calls with the flow since the last sweep,
and a record with hits 1. -/
theorem flow_hits_after_failure :
    let r := GroupOp.run (.ofMode .flow) ⟨0, "", 0, 0, false, fun _ => 0, .empty⟩
      [.hit Flow.zero false, .hit Flow.zero true]
    r.1.flb.flows.map (·.hits) = [1] ∧ (r.2.1.filter (·.1 = Flow.zero)).length = 2 := by
  decide

omit hflow in
theorem flow_bucket_tally_retry :
    let e₀ : DropHist := ⟨0, "", 0, 0, false, fun _ => 0, .empty⟩
    let ops := [GroupOp.hit Flow.zero false, .hit Flow.zero true, .sweep, .hit Flow.zero true]
    let r := GroupOp.run (.ofMode .flow) e₀ ops
    (Config.ofMode .flow).doHist = .flow ∧ e₀.flb = .empty ∧ e₀.totalDrops = 0 ∧
      r.1.flb.keys.Nodup ∧
      (∀ x ∈ r.1.flb.flows, x.hits.toNat = acceptedFor x.flow r.2.1 % 2 ^ 32) ∧
      r.1.totalDrops.toNat = ((r.1.flb.flows.map (·.hits.toNat)).sum + rejected r.2.1) % 2 ^ 32 :=
  ⟨rfl, rfl, rfl, flow_bucket_tally rfl _ _ rfl rfl⟩

/-- What the flags of a group say about every process_flow call on it since its creation. -/
structure Flagged (e : DropHist) (all : Calls) : Prop where
  count : e.flb.flowCount = 0
  overflow : e.flb.overflow = false
  failures : e.flb.failures = all.any (·.2 == .failure)
  noOverflow : ∀ c ∈ all, c.2 ≠ .overflow

omit hflow in
theorem Flagged.fresh {e : DropHist} (hflb : e.flb = .empty) : Flagged e [] :=
  ⟨by simp [hflb, FlowBuckets.empty], by simp [hflb, FlowBuckets.empty],
    by simp [hflb, FlowBuckets.empty], fun _ hc => absurd hc (List.not_mem_nil _)⟩

theorem flagged_step {x : DropHist × Calls × Calls} (h : Flagged x.1 x.2.2) (op : GroupOp) :
    Flagged (GroupOp.step cfg x op).1 (GroupOp.step cfg x op).2.2 := by
  obtain ⟨e, cyc, all⟩ := x
  dsimp only at h
  cases op with
  | hit fl a =>
    have hno := flowOutcome_of_flowCount_zero h.count a fl
    obtain ⟨h1, h2⟩ := processFlow_flags a e.flb fl
    show Flagged (countDrop cfg a fl e) (all ++ [(fl, flowOutcome a e.flb fl)])
    rw [countDrop_flow hflow]
    refine ⟨by simp [h.count], by simp [h1, h.overflow, hno], by simp [h2, h.failures], ?_⟩
    · intro c hc
      rcases List.mem_append.mp hc with hc | hc
      · exact h.noOverflow c hc
      · rw [List.mem_singleton.mp hc]; exact hno
  | sweep => exact ⟨h.count, h.overflow, h.failures, h.noOverflow⟩

theorem flagged_run (ops : List GroupOp) {x : DropHist × Calls × Calls} (h : Flagged x.1 x.2.2) :
    Flagged (ops.foldl (GroupOp.step cfg) x).1 (ops.foldl (GroupOp.step cfg) x).2.2 := by
  induction ops generalizing x with
  | nil => exact h
  | cons op ops ih => exact ih (flagged_step hflow h op)

omit hflow in
/-- The flag lines of show_flow_buckets for an entry are exactly its flags. -/
theorem showFlowEntry_flag_lines (e : DropHist) :
    (Line.msg "too many flow entries for bucket" ∈ (showFlowEntry cfg e).2 ↔ e.flb.overflow) ∧
      (Line.msg "failures processing entry" ∈ (showFlowEntry cfg e).2 ↔ e.flb.failures) := by
  constructor <;> simp [showFlowEntry, flagLines]

omit hflow in
/-- The calls since the last sweep are among the calls since creation. -/
theorem cyc_sublist_step {x : DropHist × Calls × Calls} (h : x.2.1.Sublist x.2.2)
    (op : GroupOp) :
    (GroupOp.step cfg x op).2.1.Sublist (GroupOp.step cfg x op).2.2 := by
  obtain ⟨e, cyc, all⟩ := x
  cases op with
  | hit fl a => exact h.append_right _
  | sweep => exact List.nil_sublist _

omit hflow in
theorem cyc_sublist_run (ops : List GroupOp) {x : DropHist × Calls × Calls}
    (h : x.2.1.Sublist x.2.2) :
    (ops.foldl (GroupOp.step cfg) x).2.1.Sublist (ops.foldl (GroupOp.step cfg) x).2.2 := by
  induction ops generalizing x with
  | nil => exact h
  | cons op ops ih => exact ih (cyc_sublist_step h op)

/-- In flow mode, along any history of a group from a fresh entry: the capacity message is
printed iff some call since the last sweep was rejected at capacity, and the failures message iff
some flow-record calloc failed at any time since the entry was created. -/
theorem flow_flag_lines (ops : List GroupOp) (e₀ : DropHist) (hflb : e₀.flb = .empty) :
    let r := GroupOp.run cfg e₀ ops
    (Line.msg "too many flow entries for bucket" ∈ (showFlowEntry cfg r.1).2 ↔
        ∃ c ∈ r.2.1, c.2 = .overflow) ∧
      (Line.msg "failures processing entry" ∈ (showFlowEntry cfg r.1).2 ↔
        ∃ c ∈ r.2.2, c.2 = .failure) := by
  have h : Flagged (GroupOp.run cfg e₀ ops).1 (GroupOp.run cfg e₀ ops).2.2 :=
    flagged_run hflow ops (Flagged.fresh hflb)
  have hcyc : (GroupOp.run cfg e₀ ops).2.1.Sublist (GroupOp.run cfg e₀ ops).2.2 :=
    cyc_sublist_run ops (List.nil_sublist _)
  obtain ⟨l1, l2⟩ := @showFlowEntry_flag_lines cfg (GroupOp.run cfg e₀ ops).1
  refine ⟨?_, ?_⟩
  · rw [l1, h.overflow]
    exact ⟨nofun, fun ⟨c, hc, ho⟩ => (h.noOverflow c (hcyc.subset hc) ho).elim⟩
  · rw [l2, h.failures]
    simp

omit hflow in
/-- A calloc failure in one cycle, then a sweep: the next sweep prints the failures message
although no call was made in its cycle. -/
theorem failures_line_persists :
    let r := GroupOp.run (.ofMode .flow) ⟨0, "", 0, 0, false, fun _ => 0, .empty⟩
      [.hit Flow.zero false, .sweep]
    r.2.1 = [] ∧ Line.msg "failures processing entry" ∈ (showFlowEntry (.ofMode .flow) r.1).2 := by
  decide

omit hflow in
theorem flow_flag_lines_failure :
    let e₀ : DropHist := ⟨0, "", 0, 0, false, fun _ => 0, .empty⟩
    let r := GroupOp.run (.ofMode .flow) e₀ [.hit Flow.zero false, .sweep]
    (Config.ofMode .flow).doHist = .flow ∧ e₀.flb = .empty ∧
      (Line.msg "too many flow entries for bucket" ∈ (showFlowEntry (.ofMode .flow) r.1).2 ↔
        ∃ c ∈ r.2.1, c.2 = .overflow) ∧
      (Line.msg "failures processing entry" ∈ (showFlowEntry (.ofMode .flow) r.1).2 ↔
        ∃ c ∈ r.2.2, c.2 = .failure) :=
  ⟨rfl, rfl, flow_flag_lines rfl _ _ rfl⟩

end Group

end PktDrop
