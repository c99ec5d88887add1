import PktDrop.Options
import PktDrop.CycleCounts

/-! drop_monitor as a whole: its option set-up, then perf_event_loop (perf_events.c, not among the
sources) taken as its sequence of pktdrop_complete calls, each with its records and clock reading. -/
namespace PktDrop

/-- One call of pktdrop_complete: the clock reading it takes and the records process_events
reads, with the outcomes of their callocs. -/
structure Call (cap : ℕ) where
  tMono : UInt64
  recs : List (Data cap × Alloc)

/-- The perf event loop: pktdrop_complete at each call; none at a crash. Returns the timer, the
state, and the clock readings at which show_hist ran. -/
def perfEventLoop (env : Env cap) (cfg : Config) :
    List (Call cap) → Timer → State → Option (Timer × State × List UInt64)
  | [], tm, s => some (tm, s, [])
  | c :: calls, tm, s =>
    (pktdropComplete env cfg c.tMono c.recs tm s).bind fun r =>
      (perfEventLoop env cfg calls r.1 r.2.1).map fun q =>
        (q.1, q.2.1, if r.2.2 then c.tMono :: q.2.2 else q.2.2)

/-- The inputs of the event loop for the calls: each call's records, then a report where shown
says so. -/
def callInputs (calls : List (Call cap)) (shown : List Bool) : List (Input cap) :=
  (calls.zip shown).flatMap fun cb =>
    cb.1.recs.map (fun r => .event r.1 r.2) ++ if cb.2 then [.report] else []

section Loop
variable {env : Env cap} {cfg : Config}

theorem perfEventLoop_cons {c : Call cap} {calls : List (Call cap)} {tm tm' : Timer}
    {s s' : State} {ts : List UInt64}
    (h : perfEventLoop env cfg (c :: calls) tm s = some (tm', s', ts)) :
    ∃ tm₁ s₁ shown ts', pktdropComplete env cfg c.tMono c.recs tm s = some (tm₁, s₁, shown) ∧
      perfEventLoop env cfg calls tm₁ s₁ = some (tm', s', ts') ∧
      ts = if shown then c.tMono :: ts' else ts' := by
  obtain ⟨⟨tm₁, s₁, shown⟩, h₁, h₂⟩ := Option.bind_eq_some.mp h
  obtain ⟨⟨tm₂, s₂, ts'⟩, h₃, h₄⟩ := Option.map_eq_some'.mp h₂
  cases h₄
  exact ⟨tm₁, s₁, shown, ts', h₁, h₃, rfl⟩

/-- The perf event loop is the event loop on the records read, with a report after exactly the
calls whose timer was due; the readings it returns are those calls'. -/
theorem perfEventLoop_run {calls : List (Call cap)} {tm tm' : Timer} {s s' : State}
    {ts : List UInt64} (h : perfEventLoop env cfg calls tm s = some (tm', s', ts)) :
    ∃ shown : List Bool, shown.length = calls.length ∧
      run env cfg s (callInputs calls shown) = some s' ∧
      ts = (calls.zip shown).filterMap fun cb => if cb.2 then some cb.1.tMono else none := by
  induction calls generalizing tm s ts with
  | nil => cases h; exact ⟨[], rfl, rfl, rfl⟩
  | cons c calls ih =>
    obtain ⟨tm₁, s₁, b, ts', h₁, h₂, rfl⟩ := perfEventLoop_cons h
    obtain ⟨shown, hlen, hrun, rfl⟩ := ih h₂
    refine ⟨b :: shown, by simp [hlen], ?_, by cases b <;> simp⟩
    rw [callInputs, List.zip_cons_cons, List.flatMap_cons, run_append,
      (pktdropComplete_run h₁).2.1, Option.some_bind]
    exact hrun

/-- One call with do_hist set, no wrap in t_last_display + display_rate, and the clock no
earlier than the last report: show_hist runs exactly when more than display_rate has passed,
and then t_last_display moves to the reading. -/
theorem pktdropComplete_timer {t : UInt64} {recs : List (Data cap × Alloc)} {tm tm₁ : Timer}
    {s s₁ : State} {shown : Bool} (hd : cfg.doHist ≠ .none)
    (hwrap : tm.tLastDisplay.toNat + tm.displayRate.toNat < 2 ^ 64)
    (h : pktdropComplete env cfg t recs tm s = some (tm₁, s₁, shown)) :
    tm₁.displayRate = tm.displayRate ∧
      (shown = true ↔ tm.tLastDisplay.toNat + tm.displayRate.toNat < t.toNat) ∧
      tm₁.tLastDisplay = if shown then t else tm.tLastDisplay := by
  obtain ⟨hshown, -, rfl⟩ := pktdropComplete_run h
  rw [Timer.due_iff, Nat.mod_eq_of_lt hwrap] at hshown
  refine ⟨by split_ifs <;> rfl, by simpa [hd] using hshown, by split_ifs <;> rfl⟩

/-- Along the loop with do_hist set, display_rate below 2^63 and clock readings that never go
back and stay below 2^63: the reports are more than display_rate apart, the first more than
display_rate after t_last_display, and every call is at most display_rate after the last one. -/
theorem perfEventLoop_reports {calls : List (Call cap)} {tm tm' : Timer} {s s' : State}
    {ts : List UInt64} (hd : cfg.doHist ≠ .none) (hrate : tm.displayRate.toNat < 2 ^ 63)
    (hmono : (tm.tLastDisplay :: calls.map (·.tMono)).Sorted (· ≤ ·))
    (hbound : ∀ c ∈ calls, c.tMono.toNat < 2 ^ 63)
    (h : perfEventLoop env cfg calls tm s = some (tm', s', ts)) :
    (tm.tLastDisplay :: ts).Chain' (fun a b => a.toNat + tm.displayRate.toNat < b.toNat) ∧
      tm.tLastDisplay ≤ tm'.tLastDisplay ∧
      ∀ c ∈ calls, c.tMono.toNat ≤ tm'.tLastDisplay.toNat + tm.displayRate.toNat := by
  induction calls generalizing tm s ts with
  | nil => cases h; exact ⟨List.chain'_singleton _, le_rfl, fun c hc => by cases hc⟩
  | cons c calls ih =>
    obtain ⟨tm₁, s₁, b, ts', h₁, h₂, rfl⟩ := perfEventLoop_cons h
    have hle : tm.tLastDisplay ≤ c.tMono := List.rel_of_sorted_cons hmono _ (List.mem_cons_self _ _)
    have hc : c.tMono.toNat < 2 ^ 63 := hbound c (List.mem_cons_self _ _)
    have hle' : tm.tLastDisplay.toNat ≤ c.tMono.toNat := hle
    obtain ⟨hrate₁, hshown, hlast⟩ := pktdropComplete_timer hd (by omega) h₁
    have hmono₁ : (tm₁.tLastDisplay :: calls.map (·.tMono)).Sorted (· ≤ ·) := by
      rw [hlast]
      split_ifs
      · exact (List.sorted_cons.mp hmono).2
      · exact List.Pairwise.sublist (List.Sublist.cons₂ _ (List.sublist_cons_self _ _)) hmono
    obtain ⟨hchain, hmono', hcalls⟩ := ih (hrate₁ ▸ hrate) hmono₁
      (fun c' hc' => hbound c' (List.mem_cons_of_mem _ hc')) h₂
    rw [hrate₁] at hchain hcalls
    have hlast' : tm₁.tLastDisplay.toNat ≤ tm'.tLastDisplay.toNat := hmono'
    cases b with
    | true =>
      rw [if_pos rfl] at hlast
      rw [hlast] at hchain hmono' hlast'
      refine ⟨List.Chain'.cons (hshown.mp rfl) hchain, le_trans hle hmono', ?_⟩
      rintro c' (_ | ⟨_, hc'⟩)
      · omega
      · exact hcalls c' hc'
    | false =>
      rw [if_neg Bool.false_ne_true] at hlast
      rw [hlast] at hchain hmono' hlast'
      refine ⟨hchain, hmono', ?_⟩
      rintro c' (_ | ⟨_, hc'⟩)
      · have := mt hshown.mpr Bool.false_ne_true
        omega
      · exact hcalls c' hc'

/-- process_event crashes on a record whatever the state: exactly on a sample whose skip tests
read a NULL symbol. -/
theorem processEvent_eq_none_iff {d : Data cap} {a : Alloc} {s : State} :
    processEvent env cfg d a s = none ↔
      d.eventType = .sample ∧ skipSample cfg (env.findKsym d.location) = none := by
  unfold processEvent
  split <;> simp [*]

/-- A run crashes exactly when one of its records is such a sample. -/
theorem run_eq_none_iff {is : List (Input cap)} {s : State} :
    run env cfg s is = none ↔ ∃ d a, Input.event d a ∈ is ∧
      d.eventType = .sample ∧ skipSample cfg (env.findKsym d.location) = none := by
  induction is generalizing s with
  | nil => exact ⟨fun h => (by cases h), fun ⟨_, _, h, _⟩ => by cases h⟩
  | cons i is ih =>
    cases i with
    | report =>
      rw [run, step, Option.some_bind, ih]
      simp only [List.mem_cons, reduceCtorEq, false_or]
    | event d a =>
      cases h : processEvent env cfg d a s with
      | none => exact ⟨fun _ => ⟨d, a, List.mem_cons_self _ _, processEvent_eq_none_iff.mp h⟩,
          fun _ => by rw [run, step, h, Option.none_bind]⟩
      | some r =>
        have hd : ¬(d.eventType = .sample ∧ skipSample cfg (env.findKsym d.location) = none) :=
          fun hc => by rw [processEvent_eq_none_iff.mpr hc] at h; cases h
        simp only [run, step, h, Option.some_bind, ih, List.mem_cons, Input.event.injEq]
        constructor
        · rintro ⟨d', a', hm, hc⟩
          exact ⟨d', a', .inr hm, hc⟩
        · rintro ⟨d', a', ⟨rfl, rfl⟩ | hm, hc⟩
          · exact absurd hc hd
          · exact ⟨d', a', hm, hc⟩

/-- The perf event loop crashes exactly when a call reads such a sample; the timer and the
state do not matter. -/
theorem perfEventLoop_eq_none_iff {calls : List (Call cap)} {tm : Timer} {s : State} :
    perfEventLoop env cfg calls tm s = none ↔ ∃ c ∈ calls, ∃ r ∈ c.recs,
      r.1.eventType = .sample ∧ skipSample cfg (env.findKsym r.1.location) = none := by
  induction calls generalizing tm s with
  | nil => exact ⟨fun h => (by cases h), fun ⟨_, h, _⟩ => by cases h⟩
  | cons c calls ih =>
    have hc : pktdropComplete env cfg c.tMono c.recs tm s = none ↔
        ∃ r ∈ c.recs, r.1.eventType = .sample ∧
          skipSample cfg (env.findKsym r.1.location) = none := by
      rw [pktdropComplete, Option.map_eq_none', run_eq_none_iff]
      simp only [List.mem_map, Input.event.injEq]
      constructor
      · rintro ⟨d, a, ⟨r, hr, rfl, rfl⟩, hd⟩
        exact ⟨r, hr, hd⟩
      · rintro ⟨r, hr, hd⟩
        exact ⟨r.1, r.2, ⟨r, hr, rfl, rfl⟩, hd⟩
    cases h : pktdropComplete env cfg c.tMono c.recs tm s with
    | none => exact ⟨fun _ => ⟨c, List.mem_cons_self _ _, hc.mp h⟩,
        fun _ => by rw [perfEventLoop, h, Option.none_bind]⟩
    | some r =>
      have hr := mt hc.mpr fun h' => by rw [h'] at h; cases h
      simp only [perfEventLoop, h, Option.some_bind, Option.map_eq_none', ih, List.mem_cons]
      constructor
      · rintro ⟨c', hm, hc'⟩
        exact ⟨c', .inr hm, hc'⟩
      · rintro ⟨c', rfl | hm, hc'⟩
        · exact absurd hc' hr
        · exact ⟨c', hm, hc'⟩

end Loop

section Program
variable {ovsSym : Option Ksym} {tNow : UInt64} {os : List DropOpt} {cfg : Config} {tm : Timer}
variable (hs : dropMonitor ovsSym tNow os = .ok (cfg, tm))
include hs

/-- The display timer of drop_monitor with positive -r values: reports come more than
display_rate apart, and no reading is more than display_rate past the last report. -/
theorem dropMonitor_report_spacing (hd : cfg.doHist ≠ .none)
    (hpos : ∀ n, DropOpt.r n ∈ os → 0 < n.val) {env : Env cap} {calls : List (Call cap)}
    (hmono : (tNow :: calls.map (·.tMono)).Sorted (· ≤ ·))
    (hbound : ∀ c ∈ calls, c.tMono.toNat < 2 ^ 63) {tm' : Timer} {s : State} {ts : List UInt64}
    (h : perfEventLoop env cfg calls tm State.init = some (tm', s, ts)) :
    tm.displayRate.toNat = ((lastArg DropOpt.rate os).getD 10).toNat * 10 ^ 9 ∧
      (tNow :: ts).Chain' (fun a b => a.toNat + tm.displayRate.toNat < b.toNat) ∧
      ∀ c ∈ calls, c.tMono.toNat ≤ tm'.tLastDisplay.toNat + tm.displayRate.toNat := by
  obtain ⟨-, -, hcfg, htm⟩ := dropMonitor_eq_ok hs
  have ht : tm.tLastDisplay = tNow := by rw [htm]; exact if_pos (by rwa [hcfg] at hd)
  have hrate := optsOf_displayRate_toNat hpos
  rw [show (optsOf os).displayRate = tm.displayRate by rw [htm]] at hrate
  rw [← ht] at hmono
  obtain ⟨hchain, -, hcalls⟩ := perfEventLoop_reports hd (by omega) hmono hbound h
  exact ⟨hrate.1, ht ▸ hchain, hcalls⟩

/-- The columns drop_monitor hides lose nothing: for every line it accepts, along every run of
the perf event loop from program start, whatever the records and the calloc outcomes, every
bucket show_hist_buckets does not print is 0 in every group. -/
theorem dropMonitor_hidden_columns_zero {env : Env cap} {calls : List (Call cap)}
    {tm' : Timer} {s : State} {ts : List UInt64}
    (h : perfEventLoop env cfg calls tm State.init = some (tm', s, ts)) :
    ∀ e ∈ s.allDropHists.toList, ∀ j, cfg.histSkip j = true → e.buckets j = 0 := by
  intro e he j hj
  obtain ⟨-, -, rfl, -⟩ := dropMonitor_eq_ok hs
  dsimp only at hj
  split_ifs at hj with hmode
  obtain ⟨shown, -, hrun, -⟩ := perfEventLoop_run h
  exact (ipOnly_init.run hmode State.wf_init hrun) e.addr e
    (Tree.search_of_mem _ (run_wf _ State.wf_init hrun).hists he) j (.inl hj)

/-- The perf event loop crashes exactly when -U or -T is given and a sample comes from a
location with no kernel symbol; -O cannot make it crash. -/
theorem dropMonitor_crash_iff {env : Env cap} {calls : List (Call cap)} {tm₀ : Timer}
    {s : State} :
    perfEventLoop env cfg calls tm₀ s = none ↔ (DropOpt.U ∈ os ∨ DropOpt.T ∈ os) ∧
      ∃ c ∈ calls, ∃ r ∈ c.recs,
        r.1.eventType = .sample ∧ env.findKsym r.1.location = none := by
  obtain ⟨-, hovs, rfl, -⟩ := dropMonitor_eq_ok hs
  have hu : (optsOf os).skipUnix = true ∨ (optsOf os).skipTcp = true ↔
      DropOpt.U ∈ os ∨ DropOpt.T ∈ os := or_congr List.elem_iff List.elem_iff
  rw [perfEventLoop_eq_none_iff]
  simp only [skipSample_eq_none_iff, hovs, not_false_eq_true, true_and, hu]
  constructor
  · rintro ⟨c, hc, r, hr, he, hk, hu⟩
    exact ⟨hu, c, hc, r, hr, he, hk⟩
  · rintro ⟨hu, c, hc, r, hr, he, hk⟩
    exact ⟨c, hc, r, hr, he, hk, hu⟩

end Program

theorem dropMonitor_crash_iff_unix :
    let env : Env 4 := ⟨fun _ => none, fun _ => some Flow.zero⟩
    let os := [DropOpt.s "netns", .U]
    let d : Data 4 := ⟨.sample, 0x10, 0x1000, 0, 60, 0, 0, .replicate 4 0⟩
    let calls : List (Call 4) := [⟨0, [(d, Alloc.ok)]⟩]
    ∃ cfg tm, dropMonitor none 0 os = .ok (cfg, tm) ∧
      (perfEventLoop env cfg calls tm State.init = none ↔ (DropOpt.U ∈ os ∨ DropOpt.T ∈ os) ∧
        ∃ c ∈ calls, ∃ r ∈ c.recs,
          r.1.eventType = .sample ∧ env.findKsym r.1.location = none) := by
  intro env os d calls
  have hs : dropMonitor none 0 os =
      .ok ({ Config.ofMode .netns with skipUnix := true }, ⟨10 * nsecPerSec, 0⟩) := rfl
  exact ⟨_, _, hs, dropMonitor_crash_iff hs⟩

theorem dropMonitor_report_spacing_one_second :
    let env : Env 0 := ⟨fun _ => none, fun _ => none⟩
    let os := [DropOpt.s "netns", .r ⟨1, by decide⟩]
    let calls : List (Call 0) := [⟨2000000000, []⟩, ⟨2500000000, []⟩, ⟨3100000000, []⟩]
    ∃ cfg tm tm' s ts, dropMonitor none 0 os = .ok (cfg, tm) ∧ cfg.doHist ≠ .none ∧
      (∀ n, DropOpt.r n ∈ os → 0 < n.val) ∧
      ((0 : UInt64) :: calls.map (·.tMono)).Sorted (· ≤ ·) ∧
      (∀ c ∈ calls, c.tMono.toNat < 2 ^ 63) ∧
      perfEventLoop env cfg calls tm State.init = some (tm', s, ts) ∧
      tm.displayRate.toNat = ((lastArg DropOpt.rate os).getD 10).toNat * 10 ^ 9 ∧
      ((0 : UInt64) :: ts).Chain' (fun a b => a.toNat + tm.displayRate.toNat < b.toNat) ∧
      ∀ c ∈ calls, c.tMono.toNat ≤ tm'.tLastDisplay.toNat + tm.displayRate.toNat := by
  intro env os calls
  have hs : dropMonitor none 0 os = .ok (Config.ofMode .netns, ⟨nsecPerSec, 0⟩) := rfl
  have hd : (Config.ofMode .netns).doHist ≠ .none := by decide
  have hpos : ∀ n, DropOpt.r n ∈ os → 0 < n.val := fun n hn => by
    simp only [os, List.mem_cons, reduceCtorEq, DropOpt.r.injEq, List.mem_singleton, false_or,
      List.not_mem_nil, or_false] at hn
    subst hn
    decide
  have hmono : ((0 : UInt64) :: calls.map (·.tMono)).Sorted (· ≤ ·) := by decide
  have hbound : ∀ c ∈ calls, c.tMono.toNat < 2 ^ 63 := by decide
  exact ⟨_, _, _, _, _, hs, hd, hpos, hmono, hbound, rfl,
    dropMonitor_report_spacing hs hd hpos hmono hbound
      (show perfEventLoop env _ calls _ State.init = _ from rfl)⟩

theorem dropMonitor_hidden_columns_zero_dip :
    let env : Env 4 := ⟨fun _ => none, fun _ => some { Flow.zero with proto := ethPIp }⟩
    let d : Data 4 := ⟨.sample, 0x10, 0x1000, 0, 60, ethPIp, 0, .replicate 4 0⟩
    let calls : List (Call 4) := [⟨20000000001, [(d, Alloc.ok)]⟩]
    ∃ cfg tm tm' s ts, dropMonitor none 0 [.s "dip"] = .ok (cfg, tm) ∧
      perfEventLoop env cfg calls tm State.init = some (tm', s, ts) ∧
      ∀ e ∈ s.allDropHists.toList, ∀ j, cfg.histSkip j = true → e.buckets j = 0 := by
  intro env d calls
  have hs : dropMonitor none 0 [.s "dip"] = .ok (Config.ofMode .dip, ⟨10 * nsecPerSec, 0⟩) := rfl
  exact ⟨_, _, _, _, _, hs, rfl, dropMonitor_hidden_columns_zero hs
    (show perfEventLoop env _ calls _ State.init = _ from rfl)⟩

end PktDrop
