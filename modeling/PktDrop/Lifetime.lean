import PktDrop.Counting
import PktDrop.Aging

/-! How long entries live: along a run in which every calloc succeeds and no per-cycle counter
wraps, every store refines the aging model of PktDrop.Aging key by key. -/
namespace PktDrop

/-- What a search of the location store finds for a key. -/
abbrev State.loc (s : State) (k : UInt64) : Option DropLoc := s.allDropLoc.search DropLoc.addr k

/-- What a search of the histogram store finds for a key. -/
abbrev State.hist (s : State) (k : UInt64) : Option DropHist :=
  s.allDropHists.search DropHist.addr k

section Observation
variable (env : Env cap) (cfg : Config)

/-- The group and flow do_histogram attributes a processed sample to: none when process_packet
returns before do_histogram (a unix socket, a parse failure) or the mode has no key for it. -/
def attribution (d : Data cap) : Option (UInt64 × Flow) :=
  if (env.findKsym d.location).any (·.isUnix) then none
  else (env.parsePkt (packetReq d)).bind fun fl => (histKey cfg.doHist fl d.netns).map (·, fl)

/-- What the events of a cycle did to each key: a drop at the location, a drop attributed to
the group, an exit that found the group, a process_flow call for the flow on the group. -/
structure CycleObs where
  loc : UInt64 → Bool
  hist : UInt64 → Bool
  exit : UInt64 → Bool
  flow : UInt64 → Flow → Bool

def CycleObs.empty : CycleObs := ⟨fun _ => false, fun _ => false, fun _ => false, fun _ _ => false⟩

/-- One event's part of a cycle's observations, s being the state it is processed in. -/
def CycleObs.record (o : CycleObs) (s : State) (d : Data cap) : CycleObs :=
  if processesPacket env cfg d then
    { o with
      loc := fun k => o.loc k || decide (k = d.location)
      hist := fun k => o.hist k || (attribution env cfg d).any (·.1 = k)
      flow := fun k f => o.flow k f ||
        decide (cfg.doHist = .flow ∧ attribution env cfg d = some (k, f)) }
  else if d.eventType = .exit ∧ (findDroph env cfg false false d.netns s).2.isSome then
    { o with exit := fun k => o.exit k || decide (k = d.netns) }
  else o

/-- The events of a cycle, every calloc succeeding, with what they did to each key. -/
def observeEvents : State × CycleObs → List (Data cap) → Option (State × CycleObs)
  | p, [] => some p
  | (s, o), d :: ds =>
    (processEvent env cfg d Alloc.ok s).bind fun r => observeEvents (r.1, o.record env cfg s d) ds

/-- Whole cycles, each closed by show_hist, with the observations of each, newest first. -/
def observeCycles : State → List CycleObs → List (List (Data cap)) →
    Option (State × List CycleObs)
  | s, hs, [] => some (s, hs)
  | s, hs, c :: cs =>
    (observeEvents env cfg (s, .empty) c).bind fun p =>
      observeCycles (showHist cfg p.1).1 (p.2 :: hs) cs

end Observation

/-- The abstract state: each key's credit after the last report. -/
structure Ages where
  loc : UInt64 → ℕ
  hist : UInt64 → ℕ
  flow : UInt64 → Flow → ℕ

/-- The credits after the report closing a cycle. -/
def Ages.next (A : Ages) (o : CycleObs) : Ages :=
  ⟨fun k => (Obs.mk (o.loc k) false).next (A.loc k),
    fun k => (Obs.mk (o.hist k) (o.exit k)).next (A.hist k),
    fun k f => (Obs.mk (o.flow k f) (o.exit k)).next (A.flow k f)⟩

/-- The credits after a history of cycles, newest first. -/
def Ages.ofHistory : List CycleObs → Ages
  | [] => ⟨fun _ => 0, fun _ => 0, fun _ _ => 0⟩
  | o :: hs => (Ages.ofHistory hs).next o

theorem ofHistory_loc (hs : List CycleObs) (k : UInt64) :
    (Ages.ofHistory hs).loc k = credit (hs.map fun o => ⟨o.loc k, false⟩) := by
  induction hs with
  | nil => rfl
  | cons o hs ih => simp only [Ages.ofHistory, Ages.next, ih, List.map_cons, credit]

theorem ofHistory_hist (hs : List CycleObs) (k : UInt64) :
    (Ages.ofHistory hs).hist k = credit (hs.map fun o => ⟨o.hist k, o.exit k⟩) := by
  induction hs with
  | nil => rfl
  | cons o hs ih => simp only [Ages.ofHistory, Ages.next, ih, List.map_cons, credit]

theorem ofHistory_flow (hs : List CycleObs) (k : UInt64) (f : Flow) :
    (Ages.ofHistory hs).flow k f = credit (hs.map fun o => ⟨o.flow k f, o.exit k⟩) := by
  induction hs with
  | nil => rfl
  | cons o hs ih => simp only [Ages.ofHistory, Ages.next, ih, List.map_cons, credit]

section Agreement

/-- A per-cycle counter t and its u8 credit a agree with the key's credit c and with whether the
cycle so far hit the key: the counter is zero exactly without a hit, n bounds it, and a key
without a hit has a credit left. -/
structure CounterAgrees (n : ℕ) (t : UInt32) (a : UInt8) (c : ℕ) (hit : Bool) : Prop where
  credit : a.toNat = c
  le_three : c ≤ 3
  zero_iff : t = 0 ↔ hit = false
  bound : t.toNat ≤ n
  pos : hit = false → 0 < c

/-- A location entry, or its absence, agrees with its key's credit c and the cycle's hit. -/
def LocAgrees (n : ℕ) : Option DropLoc → ℕ → Bool → Prop
  | none, c, hit => c = 0 ∧ hit = false
  | some e, c, hit => CounterAgrees n e.totalDrops e.aging c hit ∧ e.dead = false

/-- The flow records of a group agree with their credits fc and the cycle's hits fhit. -/
structure RecordsAgree (n : ℕ) (flb : FlowBuckets) (fc : Flow → ℕ) (fhit : Flow → Bool) :
    Prop where
  nodup : flb.keys.Nodup
  count : flb.flowCount = 0
  mem : ∀ f, f ∈ flb.keys ↔ (fhit f = true ∨ 0 < fc f)
  record : ∀ r ∈ flb.flows, CounterAgrees n r.hits r.aging (fc r.flow) (fhit r.flow)

/-- A group entry agrees with its key's credit c and the cycle's hit and kill, and its records
with theirs, which are never ahead of the group's. -/
structure HistEntryAgrees (n : ℕ) (e : DropHist) (c : ℕ) (hit kill : Bool) (fc : Flow → ℕ)
    (fhit : Flow → Bool) : Prop where
  counter : CounterAgrees n e.totalDrops e.aging c hit
  dead : e.dead = kill
  records : RecordsAgree n e.flb fc fhit
  flow_le : ∀ f, fc f ≤ c
  flow_hit : ∀ f, fhit f = true → hit = true

/-- A group entry, or its absence: no credit, hit or kill for the group and its flows. -/
def HistAgrees (n : ℕ) : Option DropHist → ℕ → Bool → Bool → (Flow → ℕ) → (Flow → Bool) → Prop
  | none, c, hit, kill, fc, fhit =>
    c = 0 ∧ hit = false ∧ kill = false ∧ ∀ f, fc f = 0 ∧ fhit f = false
  | some e, c, hit, kill, fc, fhit => HistEntryAgrees n e c hit kill fc fhit

variable (cfg : Config)

/-- The stores agree with the abstract credits A and the cycle's observations o, the cycle
having processed at most n samples; outside flow mode no flow is ever recorded. -/
structure Agree (s : State) (A : Ages) (o : CycleObs) (n : ℕ) : Prop where
  wf : s.Wf
  loc : ∀ k, LocAgrees n (s.loc k) (A.loc k) (o.loc k)
  hist : ∀ k, HistAgrees n (s.hist k) (A.hist k) (o.hist k) (o.exit k) (A.flow k) (o.flow k)
  noFlow : cfg.doHist ≠ .flow → ∀ k f, A.flow k f = 0 ∧ o.flow k f = false

variable {n n' : ℕ} {t : UInt32} {a : UInt8} {c : ℕ} {fc : Flow → ℕ} {fhit : Flow → Bool}

theorem CounterAgrees.mono (h : n ≤ n') {hit : Bool} (ha : CounterAgrees n t a c hit) :
    CounterAgrees n' t a c hit :=
  { ha with bound := ha.bound.trans h }

/-- One more drop: the counter takes it without wrapping, and the key is hit. -/
theorem CounterAgrees.hit (hn : n + 1 < 2 ^ 32) {hit : Bool} (ha : CounterAgrees n t a c hit) :
    CounterAgrees (n + 1) (t + 1) a c true := by
  have hb := ha.bound
  have h : (t + 1).toNat = t.toNat + 1 := by rw [toNat_add_one]; exact Nat.mod_eq_of_lt (by omega)
  exact ⟨ha.credit, ha.le_three, iff_of_false (fun h0 => by simp [h0] at h) (by decide),
    by omega, fun h => absurd h (by decide)⟩

/-- The first drop on a new entry, whose key had no credit. -/
theorem CounterAgrees.fresh : CounterAgrees (n + 1) (0 + 1) 0 0 true :=
  ⟨rfl, by decide, iff_of_false (by decide) (by decide), Nat.le_add_left 1 n,
    fun h => absurd h (by decide)⟩

/-- The aging step of show_hist is the credit step of a cycle without kill. -/
theorem CounterAgrees.age_step {hit : Bool} (ha : CounterAgrees n t a c hit) :
    (age t a).1.toNat = (Obs.mk hit false).next c ∧
      ((age t a).2 = true ↔ (Obs.mk hit false).next c = 0) := by
  obtain ⟨rfl, -, hz, -, hp⟩ := ha
  exact age_next hz hp

/-- After show_hist a surviving key has its counter zeroed and its next credit. -/
theorem CounterAgrees.report {hit : Bool} (ha : CounterAgrees n t a c hit)
    (hz : (Obs.mk hit false).next c ≠ 0) :
    CounterAgrees 0 0 (age t a).1 ((Obs.mk hit false).next c) false :=
  ⟨ha.age_step.1, next_le_three _ ha.le_three, iff_of_true rfl rfl, le_rfl,
    fun _ => Nat.pos_of_ne_zero hz⟩

/-- A counter at zero has a credit left, so the aging step does not decrement a zero credit. -/
theorem CounterAgrees.credit_ne_zero {hit : Bool} (ha : CounterAgrees n t a c hit) (h0 : t = 0) :
    a ≠ 0 := by
  rintro rfl
  have h1 := ha.pos (ha.zero_iff.mp h0)
  rw [← ha.credit] at h1
  exact absurd h1 (by decide)

theorem LocAgrees.mono (h : n ≤ n') {o : Option DropLoc} {hit : Bool} (ha : LocAgrees n o c hit) :
    LocAgrees n' o c hit := by
  cases o with
  | none => exact ha
  | some e => exact ⟨ha.1.mono h, ha.2⟩

theorem RecordsAgree.mono (h : n ≤ n') {flb : FlowBuckets} (ha : RecordsAgree n flb fc fhit) :
    RecordsAgree n' flb fc fhit :=
  { ha with record := fun r hr => (ha.record r hr).mono h }

theorem HistAgrees.mono (h : n ≤ n') {o : Option DropHist} {hit kill : Bool}
    (ha : HistAgrees n o c hit kill fc fhit) :
    HistAgrees n' o c hit kill fc fhit := by
  cases o with
  | none => exact ha
  | some e => exact { ha with counter := ha.counter.mono h, records := ha.records.mono h }

/-- At a report a location takes its next credit, and is removed when that is 0. -/
theorem LocAgrees.report {o : Option DropLoc} {hit : Bool} (ha : LocAgrees n o c hit) :
    LocAgrees 0 ((o.map ageLoc).filter (!·.dead)) ((Obs.mk hit false).next c) false := by
  cases o with
  | none =>
    obtain ⟨rfl, rfl⟩ := ha
    exact ⟨rfl, rfl⟩
  | some e =>
    obtain ⟨hc, hd⟩ := ha
    have hdead : (ageLoc e).dead = (age e.totalDrops e.aging).2 := by simp [ageLoc, hd]
    by_cases hz : (Obs.mk hit false).next c = 0
    · simp only [Option.map_some', Option.filter_some, hdead, hc.age_step.2.mpr hz, Bool.not_true,
        if_false]
      exact ⟨hz, rfl⟩
    · have hl : (age e.totalDrops e.aging).2 = false := by simpa using mt hc.age_step.2.mp hz
      simp only [Option.map_some', Option.filter_some, hdead, hl, Bool.not_false, if_true]
      exact ⟨hc.report hz, hdead.trans hl⟩

/-- At the report of a surviving group each flow record takes its next credit, and is freed
when that is 0. -/
theorem RecordsAgree.report {flb : FlowBuckets} (ha : RecordsAgree n flb fc fhit) :
    RecordsAgree 0 (sweepFlows flb) (fun f => (Obs.mk (fhit f) false).next (fc f))
      (fun _ => false) := by
  refine ⟨(sweepFlows_keys_sublist flb).nodup ha.nodup, ha.count, fun f => ?_, fun r' hr' => ?_⟩
  · simp only [sweepFlows, FlowBuckets.keys, List.mem_map, List.mem_filterMap,
      Bool.false_eq_true, false_or]
    constructor
    · rintro ⟨r', ⟨r, hr, he⟩, rfl⟩
      unfold ageFlowEntry at he
      split_ifs at he with hd
      cases he
      exact Nat.pos_of_ne_zero (mt (ha.record r hr).age_step.2.mpr (by simp [hd]))
    · intro hpos
      obtain ⟨r, hr, rfl⟩ := List.mem_map.mp ((ha.mem f).mpr (next_pos hpos))
      refine ⟨{ r with aging := (age r.hits r.aging).1, hits := 0 }, ⟨r, hr, ?_⟩, rfl⟩
      unfold ageFlowEntry
      rw [if_neg fun hd => (Nat.pos_iff_ne_zero.mp hpos) ((ha.record r hr).age_step.2.mp hd)]
  · obtain ⟨r, hr, he⟩ := List.mem_filterMap.mp hr'
    unfold ageFlowEntry at he
    split_ifs at he with hd
    cases he
    exact (ha.record r hr).report (mt (ha.record r hr).age_step.2.mpr (by simp [hd]))

/-- What show_hist does to one group entry: show_flow_buckets in flow mode, show_hist_buckets
otherwise. -/
def reportEntry (e : DropHist) : DropHist :=
  if cfg.doHist = .flow then (showFlowEntry cfg e).1 else (showHistEntry cfg e).1

theorem reportEntry_eq (e : DropHist) :
    (reportEntry cfg e).addr = e.addr ∧ (reportEntry cfg e).aging = (age e.totalDrops e.aging).1 ∧
      (reportEntry cfg e).dead = (e.dead || (age e.totalDrops e.aging).2) ∧
      (reportEntry cfg e).totalDrops = 0 ∧
      (reportEntry cfg e).flb = if cfg.doHist = .flow then sweepFlows e.flb else e.flb := by
  unfold reportEntry showFlowEntry showHistEntry
  split_ifs <;> exact ⟨rfl, rfl, rfl, rfl, rfl⟩

theorem showHist_loc {s : State} (hs : s.Wf) (k : UInt64) :
    (showHist cfg s).1.loc k = ((s.loc k).map ageLoc).filter (!·.dead) := by
  show ((s.allDropLoc.map ageLoc).removeDead (·.dead)).search DropLoc.addr k = _
  rw [Tree.search_removeDead _ (Tree.ordered_map _ hs.locs ageLoc_addr),
    Tree.search_map _ ageLoc_addr]

theorem showHist_hist {s : State} (hs : s.Wf) (k : UInt64) :
    (showHist cfg s).1.hist k = ((s.hist k).map (reportEntry cfg)).filter (!·.dead) := by
  have hmap : (if cfg.doHist = .flow then showFlowBuckets cfg s.allDropHists
      else showHistBuckets cfg s.allDropHists).1 = s.allDropHists.map (reportEntry cfg) := by
    unfold reportEntry
    split_ifs <;> rfl
  have hkey : ∀ e, (reportEntry cfg e).addr = e.addr := fun e => (reportEntry_eq cfg e).1
  show (cleanupHistBuckets _).search DropHist.addr k = _
  rw [hmap, cleanupHistBuckets, Tree.search_removeDead _ (Tree.ordered_map _ hs.hists hkey),
    Tree.search_map _ hkey]

/-- At a report a group takes its next credit, and is removed when killed or when that is 0;
its records take theirs in flow mode, and there are none outside it. -/
theorem HistAgrees.report {o : Option DropHist} {hit kill : Bool}
    (ha : HistAgrees n o c hit kill fc fhit)
    (hmode : cfg.doHist ≠ .flow → ∀ f, fc f = 0 ∧ fhit f = false) :
    HistAgrees 0 ((o.map (reportEntry cfg)).filter (!·.dead)) ((Obs.mk hit kill).next c) false
      false (fun f => (Obs.mk (fhit f) kill).next (fc f)) (fun _ => false) := by
  cases o with
  | none =>
    obtain ⟨rfl, rfl, rfl, hf⟩ := ha
    exact ⟨rfl, rfl, rfl, fun f => ⟨by simp [Obs.next, hf f], rfl⟩⟩
  | some e =>
    have ha : HistEntryAgrees n e c hit kill fc fhit := ha
    obtain ⟨-, ea, ed, et, ef⟩ := reportEntry_eq cfg e
    have hle : ∀ f, (Obs.mk (fhit f) false).next (fc f) ≤ (Obs.mk hit false).next c :=
      fun f => next_le_next (ha.flow_hit f) (ha.flow_le f) ha.counter.le_three
    cases kill with
    | true =>
      simp only [Option.map_some', Option.filter_some, ed, ha.dead, Bool.true_or, Bool.not_true,
        if_false]
      exact ⟨rfl, rfl, rfl, fun _ => ⟨rfl, rfl⟩⟩
    | false =>
      by_cases hz : (Obs.mk hit false).next c = 0
      · simp only [Option.map_some', Option.filter_some, ed, ha.dead, ha.counter.age_step.2.mpr hz,
          Bool.or_true, Bool.not_true, if_false]
        exact ⟨hz, rfl, rfl, fun f => ⟨Nat.le_zero.mp (hz ▸ hle f), rfl⟩⟩
      · have hdead : (reportEntry cfg e).dead = false := by
          simpa [ed, ha.dead] using mt ha.counter.age_step.2.mp hz
        simp only [Option.map_some', Option.filter_some, hdead, Bool.not_false, if_true]
        refine ⟨by rw [ea, et]; exact ha.counter.report hz, hdead, ?_, hle, fun _ h => by cases h⟩
        rw [ef]
        split_ifs with hm
        · exact ha.records.report
        · have h0 := hmode hm
          refine ⟨ha.records.nodup, ha.records.count, fun f => ?_, fun r hr => ?_⟩
          · simpa [h0 f, Obs.next] using ha.records.mem f
          · have := (ha.records.mem r.flow).mp (List.mem_map_of_mem _ hr)
            simp [h0 r.flow] at this

/-- The report step of the refinement: show_hist takes every key to its next credit and opens
a cycle with no observation. -/
theorem Agree.report {s : State} {A : Ages} {o : CycleObs} {n : ℕ} (h : Agree cfg s A o n) :
    Agree cfg (showHist cfg s).1 (A.next o) CycleObs.empty 0 where
  wf := showHist_wf cfg h.wf
  loc k := by rw [showHist_loc cfg h.wf]; exact (h.loc k).report
  hist k := by rw [showHist_hist cfg h.wf]; exact (h.hist k).report cfg fun hm f => h.noFlow hm k f
  noFlow hm k f := ⟨by simp [Ages.next, Obs.next, (h.noFlow hm k f).1, (h.noFlow hm k f).2], rfl⟩

/-- A drop at a location: its entry, found or new, is counted and the location is hit. -/
theorem LocAgrees.hit (hn : n + 1 < 2 ^ 32) {o : Option DropLoc} {hit : Bool}
    (ha : LocAgrees n o c hit)
    {e₀ : DropLoc} {addr : UInt64} (h₀ : e₀.Fresh addr) :
    LocAgrees (n + 1) ((o.or (some e₀)).map DropLoc.bump) c true := by
  cases o with
  | none =>
    obtain ⟨rfl, rfl⟩ := ha
    obtain ⟨-, ht, hag, hd⟩ := h₀
    refine ⟨?_, hd⟩
    show CounterAgrees (n + 1) (e₀.totalDrops + 1) e₀.aging 0 true
    rw [ht, hag]
    exact CounterAgrees.fresh
  | some e => exact ⟨ha.1.hit hn, ha.2⟩

/-- The empty bucket of a new group agrees with zero credits and no hits. -/
theorem RecordsAgree.empty {n : ℕ} {fc : Flow → ℕ} {fhit : Flow → Bool}
    (h : ∀ f, fc f = 0 ∧ fhit f = false) : RecordsAgree n .empty fc fhit :=
  ⟨List.nodup_nil, rfl, fun f => by simp [FlowBuckets.empty, FlowBuckets.keys, h f],
    fun _ hr => by cases hr⟩

/-- An accepted process_flow call: the flow's record, found or new, is counted and the flow is
hit. With flow_count at 0 and calloc succeeding, every call is accepted. -/
theorem RecordsAgree.hit (hn : n + 1 < 2 ^ 32) {flb : FlowBuckets} (ha : RecordsAgree n flb fc fhit)
    (fl : Flow) :
    RecordsAgree (n + 1) (processFlow true flb fl) fc (fun f => fhit f || decide (fl = f)) := by
  rw [processFlow_eq true flb fl ha.nodup]
  cases ho : flowOutcome true flb fl with
  | overflow => exact absurd ho (flowOutcome_of_flowCount_zero ha.count true fl)
  | failure => simp [flowOutcome] at ho; split_ifs at ho
  | hit =>
    have hk := flowOutcome_eq_hit.mp ho
    have hkeys : FlowBuckets.keys { flb with flows := flb.flows.map (bumpFlow fl) } = flb.keys := by
      simp [FlowBuckets.keys, Function.comp_def]
    refine ⟨hkeys ▸ ha.nodup, ha.count, fun f => ?_, fun r hr => ?_⟩
    · rw [hkeys, ha.mem f]
      by_cases hf : fl = f
      · subst hf; simp [hk, (ha.mem fl).mp hk]
      · simp [hf]
    · obtain ⟨r₀, hr₀, rfl⟩ := List.mem_map.mp hr
      by_cases hf : r₀.flow = fl
      · subst hf
        simpa [bumpFlow] using (ha.record r₀ hr₀).hit hn
      · simpa [bumpFlow, hf, Ne.symm hf] using (ha.record r₀ hr₀).mono (Nat.le_succ n)
  | added =>
    have hk : fl ∉ flb.keys := fun hk => by simp [flowOutcome_eq_hit.mpr hk] at ho
    have hfc : fc fl = 0 := by
      by_contra h0
      exact hk ((ha.mem fl).mpr (.inr (Nat.pos_of_ne_zero h0)))
    refine ⟨List.nodup_cons.mpr ⟨hk, ha.nodup⟩, ha.count, fun f => ?_, fun r hr => ?_⟩
    · by_cases hf : fl = f
      · subst hf; simp [FlowBuckets.keys]
      · simp [FlowBuckets.keys, hf, Ne.symm hf, ← ha.mem f]
    · rcases List.mem_cons.mp hr with rfl | hr
      · simpa [hfc] using CounterAgrees.fresh (n := n)
      · have hne : fl ≠ r.flow := fun he => hk (he ▸ List.mem_map_of_mem _ hr)
        simpa [hne] using (ha.record r hr).mono (Nat.le_succ n)

/-- What do_histogram's count does to the records of a group: process_flow in flow mode,
nothing otherwise. -/
theorem RecordsAgree.countDrop {n : ℕ} (hn : n + 1 < 2 ^ 32) {flb : FlowBuckets}
    {fc : Flow → ℕ} {fhit : Flow → Bool} (ha : RecordsAgree n flb fc fhit) (fl : Flow) :
    RecordsAgree (n + 1) (if cfg.doHist = .flow then processFlow true flb fl else flb) fc
      (fun f => fhit f || decide (cfg.doHist = .flow ∧ fl = f)) := by
  split_ifs with hm
  · simpa [hm] using ha.hit hn fl
  · simpa [hm] using ha.mono (Nat.le_succ n)

theorem countDrop_fields (alloc : Bool) (fl : Flow) (e : DropHist) :
    (countDrop cfg alloc fl e).aging = e.aging ∧ (countDrop cfg alloc fl e).dead = e.dead ∧
      (countDrop cfg alloc fl e).totalDrops = e.totalDrops + 1 ∧
      (countDrop cfg alloc fl e).flb =
        if cfg.doHist = .flow then processFlow alloc e.flb fl else e.flb := by
  unfold countDrop; split_ifs <;> exact ⟨rfl, rfl, rfl, rfl⟩

/-- A drop attributed to a group: its entry, found or new, is counted and the group is hit. -/
theorem HistAgrees.hit (hn : n + 1 < 2 ^ 32) {o : Option DropHist} {hit kill : Bool}
    (ha : HistAgrees n o c hit kill fc fhit) {e₀ : DropHist} {addr : UInt64} (h₀ : e₀.Fresh addr)
    (fl : Flow) :
    HistAgrees (n + 1) ((o.or (some e₀)).map (countDrop cfg true fl)) c true kill fc
      (fun f => fhit f || decide (cfg.doHist = .flow ∧ fl = f)) := by
  cases o with
  | none =>
    obtain ⟨rfl, rfl, rfl, hf⟩ := ha
    obtain ⟨-, ht, hag, hd, -, hflb⟩ := h₀
    obtain ⟨ea, ed, et, ef⟩ := countDrop_fields cfg true fl e₀
    refine ⟨by rw [ea, et, ht, hag]; exact CounterAgrees.fresh, ed.trans hd, ?_,
      fun f => (hf f).1.le, fun _ _ => rfl⟩
    rw [ef, hflb]
    exact (RecordsAgree.empty hf).countDrop cfg hn fl
  | some e =>
    have ha : HistEntryAgrees n e c hit kill fc fhit := ha
    obtain ⟨ea, ed, et, ef⟩ := countDrop_fields cfg true fl e
    exact ⟨by rw [ea, et]; exact ha.counter.hit hn, ed.trans ha.dead,
      ef ▸ ha.records.countDrop cfg hn fl, ha.flow_le, fun _ _ => rfl⟩

/-- process_exit marks the group dead: the group is killed. -/
theorem HistAgrees.kill {e : DropHist} {hit kill : Bool}
    (ha : HistAgrees n (some e) c hit kill fc fhit) :
    HistAgrees n (some { e with dead := true }) c hit true fc fhit :=
  have ha : HistEntryAgrees n e c hit kill fc fhit := ha
  ⟨ha.counter, rfl, ha.records, ha.flow_le, ha.flow_hit⟩

end Agreement

section Events
variable (env : Env cap) (cfg : Config)

/-- A lookup without create finds what a search finds. -/
theorem findDroph_no_create_snd (alloc : Bool) (addr : UInt64) (s : State) :
    (findDroph env cfg alloc false addr s).2 = s.hist addr := by
  show _ = s.allDropHists.search DropHist.addr addr
  unfold findDroph
  cases s.allDropHists.search DropHist.addr addr <;> rfl

/-- process_packet writes the location store in its head only. -/
theorem processPacket_loc (a : Alloc) (d : Data cap) (sym : Option Ksym) (s : State) (k : UInt64) :
    (processPacket env cfg a d sym s).1.loc k = (countPacket a d sym s).loc k := by
  unfold processPacket
  split_ifs
  · rfl
  · split
    · rfl
    · rw [doHistogram_state]

theorem processExit_loc (d : Data cap) (s : State) (k : UInt64) :
    (processExit env cfg d s).1.loc k = s.loc k := by
  have h := findDroph_no_create env cfg false d.netns s
  unfold processExit
  split <;> rename_i heq <;> simp only [heq] at h <;> subst h <;> rfl

variable {s : State} (hs : s.Wf)
include hs

/-- The head of process_packet on the location store: the entry for the location, found or
created, is counted; the other entries are unchanged. -/
theorem countPacket_loc (a : Alloc) (d : Data cap) (sym : Option Ksym) (k : UInt64) :
    (countPacket a d sym s).loc k = if k = d.location then
      ((s.loc d.location).or (newDropl a.dropl d.location (sym.map (·.name)))).map DropLoc.bump
    else s.loc k :=
  Tree.search_find_write DropLoc.addr hs.locs
    (fun n hn => (newDropl_fresh a.dropl d.location (sym.map (·.name)) n hn).1) DropLoc.bump_addr k

/-- do_histogram on the group store: the entry for the group key, found or created, is counted;
the other entries are unchanged. -/
theorem doHistogram_hist (a : Alloc) (fl : Flow) (netns k : UInt64) :
    (doHistogram env cfg a fl netns s).1.hist k =
      match histKey cfg.doHist fl netns with
      | none => s.hist k
      | some addr => if k = addr then
          ((s.hist addr).or (newDroph env cfg a.droph s.nsid addr).1).map
            (countDrop cfg a.flowEntry fl)
        else s.hist k := by
  unfold doHistogram
  cases histKey cfg.doHist fl netns with
  | none => rfl
  | some addr =>
    dsimp only
    have h : _ = s.allDropHists.find DropHist.addr addr (newDroph env cfg a.droph s.nsid addr).1 :=
      findDroph_find env cfg a.droph true addr s
    rw [← Tree.search_find_write DropHist.addr hs.hists
      (fun n hn => (newDroph_fresh env cfg a.droph s.nsid addr n hn).1)
      (countDrop_addr cfg a.flowEntry fl) k, ← h]
    split <;> rename_i heq <;> rw [heq] <;> rfl

/-- process_packet on the group store, every calloc succeeding: the entry for the group the
sample is attributed to, found or created, is counted; the other entries are unchanged. -/
theorem processPacket_hist (d : Data cap) (k : UInt64) :
    (processPacket env cfg Alloc.ok d (env.findKsym d.location) s).1.hist k =
      match attribution env cfg d with
      | none => s.hist k
      | some (addr, fl) => if k = addr then
          ((s.hist addr).or (newDroph env cfg true s.nsid addr).1).map (countDrop cfg true fl)
        else s.hist k := by
  unfold processPacket attribution
  split_ifs
  · rfl
  · cases env.parsePkt (packetReq d) with
    | none => rfl
    | some fl =>
      rw [doHistogram_hist env cfg (countPacket_wf hs _ d _), Option.some_bind]
      cases histKey cfg.doHist fl d.netns <;> rfl

/-- process_exit on the group store: the entry for the netns, if any, is marked dead; the
other entries are unchanged. -/
theorem processExit_hist (d : Data cap) (k : UInt64) :
    (processExit env cfg d s).1.hist k =
      if k = d.netns then (s.hist k).map (fun e => { e with dead := true }) else s.hist k := by
  have hsnd := findDroph_no_create_snd env cfg false d.netns s
  have hst := findDroph_no_create env cfg false d.netns s
  unfold processExit
  split <;> rename_i heq <;> simp only [heq] at hsnd hst <;> subst hst
  · exact Tree.search_modify DropHist.addr (f := fun e => { e with dead := true })
      (fun _ => rfl) _ _ _
  · split_ifs with hk
    · subst hk; rw [← hsnd]; rfl
    · rfl

end Events

section Steps
variable (env : Env cap) (cfg : Config) {s : State} {A : Ages} {o : CycleObs} {n : ℕ}

/-- The packet step of the refinement: the location and, if the sample is attributed, the
group and (in flow mode) the flow are hit. -/
theorem Agree.packet (h : Agree cfg s A o n) {d : Data cap} (hp : processesPacket env cfg d)
    (hn : n + 1 < 2 ^ 32) :
    Agree cfg (processPacket env cfg Alloc.ok d (env.findKsym d.location) s).1 A
      (o.record env cfg s d) (n + 1) := by
  rw [CycleObs.record, if_pos hp]
  refine ⟨processPacket_wf env cfg h.wf _ d _, fun k => ?_, fun k => ?_, fun hm k f => ?_⟩
  · dsimp only
    rw [processPacket_loc, countPacket_loc h.wf]
    split_ifs with hk
    · subst hk
      simpa using (h.loc d.location).hit hn
        (newDropl_fresh true d.location ((env.findKsym d.location).map (·.name)) _ rfl)
    · simpa [hk] using (h.loc k).mono (Nat.le_succ n)
  · dsimp only
    rw [processPacket_hist env cfg h.wf d k]
    cases hatt : attribution env cfg d with
    | none => simpa using (h.hist k).mono (Nat.le_succ n)
    | some p =>
      obtain ⟨addr, fl⟩ := p
      dsimp only
      split_ifs with hk
      · subst hk
        obtain ⟨e₀, he₀, hf₀⟩ := newDroph_some env cfg s.nsid k
        rw [he₀]
        simpa using (h.hist k).hit cfg hn hf₀ fl
      · simpa [Ne.symm hk] using (h.hist k).mono (Nat.le_succ n)
  · exact ⟨(h.noFlow hm k f).1, by simp [hm, (h.noFlow hm k f).2]⟩

/-- The exit step of the refinement: a group process_exit finds is killed. -/
theorem Agree.exit (h : Agree cfg s A o n) {d : Data cap} (hx : d.eventType = .exit) :
    Agree cfg (processExit env cfg d s).1 A (o.record env cfg s d) n := by
  have hp : ¬ processesPacket env cfg d := fun hp => absurd (hx.symm.trans hp.1) (by decide)
  rw [CycleObs.record, if_neg hp, findDroph_no_create_snd]
  refine ⟨processExit_wf env cfg h.wf d, fun k => ?_, fun k => ?_, fun hm k f => ?_⟩
  · rw [processExit_loc]
    split_ifs <;> exact h.loc k
  · rw [processExit_hist env cfg h.wf d k]
    by_cases hk : k = d.netns
    · subst hk
      have ha := h.hist d.netns
      cases he : s.hist d.netns with
      | none => rw [he] at ha; simpa using ha
      | some e => rw [he] at ha; simpa [hx] using ha.kill
    · rw [if_neg hk]
      split_ifs <;> simpa [hk] using h.hist k
  · split_ifs <;> exact h.noFlow hm k f

/-- The event step of the refinement, every calloc succeeding. -/
theorem Agree.event (h : Agree cfg s A o n) {d : Data cap} {r : State × List Line}
    (hr : processEvent env cfg d Alloc.ok s = some r)
    (hn : processesPacket env cfg d → n + 1 < 2 ^ 32) :
    Agree cfg r.1 A (o.record env cfg s d) (n + if processesPacket env cfg d then 1 else 0) := by
  rcases processEvent_cases env cfg hr with ⟨hp, hx, hr⟩ | ⟨hp, rfl⟩ | ⟨hx, rfl⟩
  · rw [hr, if_neg hp, CycleObs.record, if_neg hp, if_neg fun h => hx h.1]
    exact h
  · rw [if_pos hp]
    exact h.packet env cfg hp (hn hp)
  · have hp : ¬ processesPacket env cfg d := fun hp => absurd (hx.symm.trans hp.1) (by decide)
    rw [if_neg hp]
    exact h.exit env cfg hx

/-- The events of a cycle keep the refinement while the cycle's samples stay below 2^32. -/
theorem Agree.events {ds : List (Data cap)} {s' : State} {o' : CycleObs} (h : Agree cfg s A o n)
    (hn : n + ds.countP (fun d => decide (processesPacket env cfg d)) < 2 ^ 32)
    (hr : observeEvents env cfg (s, o) ds = some (s', o')) :
    Agree cfg s' A o' (n + ds.countP (fun d => decide (processesPacket env cfg d))) := by
  induction ds generalizing s o n with
  | nil => cases hr; exact h
  | cons d ds ih =>
    obtain ⟨r, hr₁, hr₂⟩ := Option.bind_eq_some.mp hr
    have hsum : n + (d :: ds).countP (fun d => decide (processesPacket env cfg d)) =
        (n + if processesPacket env cfg d then 1 else 0) +
          ds.countP (fun d => decide (processesPacket env cfg d)) := by
      rw [List.countP_cons]
      by_cases hp : processesPacket env cfg d
      · simp [hp]; omega
      · simp [hp]
    rw [hsum] at hn ⊢
    exact ih (h.event env cfg hr₁ fun hp => by simp only [if_pos hp] at hn; omega) hn hr₂

theorem Agree.init : Agree cfg State.init (Ages.ofHistory []) CycleObs.empty 0 :=
  ⟨State.wf_init, fun _ => ⟨rfl, rfl⟩, fun _ => ⟨rfl, rfl, rfl, fun _ => ⟨rfl, rfl⟩⟩,
    fun _ _ _ => ⟨rfl, rfl⟩⟩

/-- Whole cycles keep the refinement: after each report the stores agree with the credits of
the history so far. -/
theorem Agree.cycles {cs : List (List (Data cap))} {hs hs' : List CycleObs} {s' : State}
    (h : Agree cfg s (Ages.ofHistory hs) CycleObs.empty 0)
    (hb : ∀ c ∈ cs, c.countP (fun d => decide (processesPacket env cfg d)) < 2 ^ 32)
    (hr : observeCycles env cfg s hs cs = some (s', hs')) :
    Agree cfg s' (Ages.ofHistory hs') CycleObs.empty 0 := by
  induction cs generalizing s hs with
  | nil => cases hr; exact h
  | cons c cs ih =>
    obtain ⟨⟨s₁, o₁⟩, hp, hr⟩ := Option.bind_eq_some.mp hr
    have hc := h.events env cfg (by simpa using hb c (List.mem_cons_self _ _)) hp
    exact ih hc.report (fun c' hc' => hb c' (List.mem_cons_of_mem _ hc')) hr

theorem LocAgrees.present {n : ℕ} {o : Option DropLoc} {c : ℕ} (ha : LocAgrees n o c false) :
    o.isSome ↔ 0 < c := by
  cases o with
  | none => simp [ha.1]
  | some e => simpa using ha.1.pos rfl

theorem HistAgrees.present {n : ℕ} {o : Option DropHist} {c : ℕ} {kill : Bool} {fc : Flow → ℕ}
    {fhit : Flow → Bool} (ha : HistAgrees n o c false kill fc fhit) : o.isSome ↔ 0 < c := by
  cases o with
  | none => simp [ha.1]
  | some e => simpa using HistEntryAgrees.counter ha |>.pos rfl

theorem HistAgrees.flow_present {n : ℕ} {o : Option DropHist} {c : ℕ} {kill : Bool}
    {fc : Flow → ℕ} (ha : HistAgrees n o c false kill fc fun _ => false) (f : Flow) :
    (∃ e, o = some e ∧ f ∈ e.flb.keys) ↔ o.isSome ∧ 0 < fc f := by
  cases o with
  | none => simp [(ha.2.2.2 f).1]
  | some e => simpa using (HistEntryAgrees.records ha).mem f

/-- Every entry and flow record whose counter is zero has a credit left, so the u8 decrement of
the next show_hist does not wrap. -/
def CreditsLeft (s : State) : Prop :=
  (∀ e ∈ s.allDropLoc.toList, e.totalDrops = 0 → e.aging ≠ 0) ∧
    (∀ e ∈ s.allDropHists.toList, e.totalDrops = 0 → e.aging ≠ 0) ∧
    ∀ e ∈ s.allDropHists.toList, ∀ r ∈ e.flb.flows, r.hits = 0 → r.aging ≠ 0

theorem Agree.creditsLeft (h : Agree cfg s A o n) : CreditsLeft s := by
  have hist : ∀ e ∈ s.allDropHists.toList, HistEntryAgrees n e (A.hist e.addr) (o.hist e.addr)
      (o.exit e.addr) (A.flow e.addr) (o.flow e.addr) := fun e he => by
    simpa [State.hist, Tree.search_of_mem _ h.wf.hists he] using h.hist e.addr
  refine ⟨fun e he => ?_, fun e he => (hist e he).counter.credit_ne_zero,
    fun e he r hr => ((hist e he).records.record r hr).credit_ne_zero⟩
  have ha := h.loc e.addr
  rw [State.loc, Tree.search_of_mem _ h.wf.locs he] at ha
  exact ha.1.credit_ne_zero

end Steps

section Lifetime
variable (env : Env cap) (cfg : Config)

/-- The event loop's inputs for whole cycles, every calloc succeeding: each cycle's records,
then a report. -/
def cycleInputs (cs : List (List (Data cap))) : List (Input cap) :=
  cs.flatMap fun c => c.map (fun d => .event d Alloc.ok) ++ [.report]

theorem observeEvents_run {s s' : State} {o o' : CycleObs} {ds : List (Data cap)}
    (h : observeEvents env cfg (s, o) ds = some (s', o')) :
    run env cfg s (ds.map fun d => .event d Alloc.ok) = some s' := by
  induction ds generalizing s o with
  | nil => cases h; rfl
  | cons d ds ih =>
    obtain ⟨r, hr₁, hr₂⟩ := Option.bind_eq_some.mp h
    simp only [List.map_cons, run, step, hr₁, Option.some_bind]
    exact ih hr₂

/-- Observing whole cycles runs the event loop on their inputs. -/
theorem observeCycles_run {s s' : State} {hs hs' : List CycleObs} {cs : List (List (Data cap))}
    (h : observeCycles env cfg s hs cs = some (s', hs')) :
    run env cfg s (cycleInputs cs) = some s' := by
  induction cs generalizing s hs with
  | nil => cases h; rfl
  | cons c cs ih =>
    obtain ⟨⟨s₁, o₁⟩, hp, hr⟩ := Option.bind_eq_some.mp h
    simp only [cycleInputs, List.flatMap_cons, List.append_assoc, run_append,
      observeEvents_run env cfg hp, Option.some_bind, List.singleton_append, run, step]
    exact ih hr

/-- How long entries live: after whole cycles, an entry or flow record is present exactly when it
was seen in one of the last three cycles and not killed since; no zero credit is decremented. -/
theorem stores_age_out {cs : List (List (Data cap))} {s : State} {hs : List CycleObs}
    (hb : ∀ c ∈ cs, c.countP (fun d => decide (processesPacket env cfg d)) < 2 ^ 32)
    (h : observeCycles env cfg State.init [] cs = some (s, hs)) :
    run env cfg State.init (cycleInputs cs) = some s ∧
    (∀ k, (∃ e ∈ s.allDropLoc.toList, e.addr = k) ↔
      Recent (hs.map fun o => ⟨o.loc k, false⟩)) ∧
    (∀ k, (∃ e ∈ s.allDropHists.toList, e.addr = k) ↔
      Recent (hs.map fun o => ⟨o.hist k, o.exit k⟩)) ∧
    (∀ k f, (∃ e ∈ s.allDropHists.toList, e.addr = k ∧ f ∈ e.flb.keys) ↔
      (∃ e ∈ s.allDropHists.toList, e.addr = k) ∧ Recent (hs.map fun o => ⟨o.flow k f, o.exit k⟩)) ∧
    ∀ cur s' o', cur.countP (fun d => decide (processesPacket env cfg d)) < 2 ^ 32 →
      observeEvents env cfg (s, .empty) cur = some (s', o') → CreditsLeft s' := by
  have ha := (Agree.init cfg).cycles env cfg hb h
  refine ⟨observeCycles_run env cfg h, fun k => ?_, fun k => ?_, fun k f => ?_,
    fun cur s' o' hcur h' => (ha.events env cfg (by simpa using hcur) h').creditsLeft⟩
  · rw [Tree.exists_key_iff_isSome _ ha.wf.locs, ← credit_pos_iff, ← ofHistory_loc]
    exact (ha.loc k).present
  · rw [Tree.exists_key_iff_isSome _ ha.wf.hists, ← credit_pos_iff, ← ofHistory_hist]
    exact (ha.hist k).present
  · rw [Tree.exists_key_iff_search _ ha.wf.hists, Tree.exists_key_iff_isSome _ ha.wf.hists,
      ← credit_pos_iff, ← ofHistory_flow]
    exact (ha.hist k).flow_present f

/-- One cycle with one sample at location 0x10, in netns mode: the bound holds, and after the
report the location's entry is present. -/
theorem stores_age_out_one_sample :
    let env : Env 4 := ⟨fun _ => none, fun _ => some Flow.zero⟩
    let cfg := Config.ofMode .netns
    let d : Data 4 := ⟨.sample, 0x10, 0x1000, 0, 60, 0, 0, .replicate 4 0⟩
    (∀ c ∈ [[d]], c.countP (fun d => decide (processesPacket env cfg d)) < 2 ^ 32) ∧
      ∃ s hs, observeCycles env cfg State.init [] [[d]] = some (s, hs) ∧
        run env cfg State.init (cycleInputs [[d]]) = some s ∧
        ∃ e ∈ s.allDropLoc.toList, e.addr = 0x10 := by
  intro env cfg d
  have hb : ∀ c ∈ [[d]], c.countP (fun d => decide (processesPacket env cfg d)) < 2 ^ 32 := by
    decide
  have h := stores_age_out env cfg hb rfl
  refine ⟨hb, _, _, rfl, h.1,
    (h.2.1 0x10).mpr ⟨0, by decide, ⟨_, rfl, by decide⟩, fun j hj o ho => ?_⟩⟩
  obtain rfl := Nat.le_zero.mp hj
  cases ho
  rfl

end Lifetime

end PktDrop
