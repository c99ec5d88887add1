import PktDrop.Run

/-! When show_hist runs: -r sets display_rate = r * NSEC_PER_SEC modulo 2^64, and
pktdrop_complete reports once the clock is past t_last_display + display_rate, a sum that may wrap. -/
namespace PktDrop

/-- NSEC_PER_SEC, an unsigned 64-bit constant. -/
def nsecPerSec : UInt64 := 1000000000

/-- The values of a C int, the type atoi returns. -/
def IsCInt (r : ℤ) : Prop := -2 ^ 31 ≤ r ∧ r < 2 ^ 31

instance decidableIsCInt (r : ℤ) : Decidable (IsCInt r) := inferInstanceAs (Decidable (_ ∧ _))

/-- r * NSEC_PER_SEC for an int r: r is converted to the unsigned type of NSEC_PER_SEC, modulo
2^64, and so is the product. -/
def displayRateOf (r : ℤ) : UInt64 := UInt64.ofNat (r % 2 ^ 64).toNat * nsecPerSec

/-- display_rate after option parsing: ten seconds unless -r gives an r; -r 0 is refused. -/
def parseDisplayRate : Option ℤ → Except String UInt64
  | none => .ok (10 * nsecPerSec)
  | some r => if r = 0 then .error "Invalid display rate" else .ok (displayRateOf r)

/-- The globals of the display timer. -/
structure Timer where
  displayRate : UInt64
  tLastDisplay : UInt64

/-- The test of pktdrop_complete at clock reading t_mono. -/
def Timer.due (tm : Timer) (tMono : UInt64) : Bool := tMono > tm.tLastDisplay + tm.displayRate

/-- pktdrop_complete at clock reading t_mono: process_events on the records read since the last
call, then, with do_hist, show_hist when the timer is due, setting t_last_display to t_mono.
The Bool tells whether show_hist ran; none when a record crashes process_event. -/
def pktdropComplete (env : Env cap) (cfg : Config) (tMono : UInt64)
    (recs : List (Data cap × Alloc)) (tm : Timer) (s : State) : Option (Timer × State × Bool) :=
  (run env cfg s (recs.map fun r => .event r.1 r.2)).map fun s' =>
    if cfg.doHist ≠ .none ∧ tm.due tMono then
      ({ tm with tLastDisplay := tMono }, (showHist cfg s').1, true)
    else (tm, s', false)

theorem parseDisplayRate_eq_ok {r : ℤ} {rate : UInt64} :
    parseDisplayRate (some r) = .ok rate ↔ r ≠ 0 ∧ rate = displayRateOf r := by
  simp only [parseDisplayRate]
  split_ifs with h <;> simp [h, eq_comm]

/-- The product, read as an int: r * 10^9 reduced modulo 2^64. -/
theorem displayRateOf_toNat (r : ℤ) : ((displayRateOf r).toNat : ℤ) = r * 10 ^ 9 % 2 ^ 64 := by
  have h : (UInt64.ofNat (r % 2 ^ 64).toNat).toNat = (r % 2 ^ 64).toNat :=
    UInt64.toNat_ofNat_of_lt (by rw [UInt64.size]; omega)
  rw [displayRateOf, UInt64.toNat_mul, h]
  simp only [nsecPerSec, UInt64.toNat_ofNat, UInt64.size]
  omega

theorem displayRateOf_toNat_of_pos {r : ℤ} (hr : IsCInt r) (h : 0 < r) :
    (displayRateOf r).toNat = r.toNat * 10 ^ 9 := by
  have := displayRateOf_toNat r
  have := hr.2
  omega

theorem displayRateOf_toNat_of_neg {r : ℤ} (hr : IsCInt r) (h : r < 0) :
    (displayRateOf r).toNat = 2 ^ 64 - r.natAbs * 10 ^ 9 := by
  have := displayRateOf_toNat r
  have := hr.1
  omega

theorem Timer.due_iff (tm : Timer) (tMono : UInt64) :
    tm.due tMono = true ↔ (tm.tLastDisplay.toNat + tm.displayRate.toNat) % 2 ^ 64 < tMono.toNat := by
  simp only [Timer.due, decide_eq_true_eq, gt_iff_lt]
  exact Iff.rfl

/-- pktdrop_complete is the event loop on the records read, followed by a report exactly when
do_hist is set and the timer is due; only then does t_last_display move, to t_mono. -/
theorem pktdropComplete_run {env : Env cap} {cfg : Config} {tMono : UInt64}
    {recs : List (Data cap × Alloc)} {tm tm' : Timer} {s s' : State} {shown : Bool}
    (h : pktdropComplete env cfg tMono recs tm s = some (tm', s', shown)) :
    (shown = true ↔ cfg.doHist ≠ .none ∧ tm.due tMono = true) ∧
      run env cfg s (recs.map (fun r => .event r.1 r.2) ++ if shown then [.report] else []) =
        some s' ∧
      tm' = if shown then { tm with tLastDisplay := tMono } else tm := by
  obtain ⟨s₁, hr, hs⟩ := Option.map_eq_some'.mp h
  rw [run_append, hr, Option.some_bind]
  split_ifs at hs with hd <;> cases hs <;> simp [hd, run, step]

/-- A positive -r makes pktdrop_complete report once more than r seconds have passed; a negative
one makes display_rate 2^64 - |r| seconds, and the sum with t_last_display wraps. -/
theorem pktdropComplete_display_rate (env : Env cap) (cfg : Config) (r : ℤ) (rate tLast tMono : UInt64)
    (recs : List (Data cap × Alloc)) (s : State) (tm : Timer) (s' : State) (shown : Bool)
    (hr : IsCInt r) (hp : parseDisplayRate (some r) = .ok rate) (hle : tLast ≤ tMono)
    (hmono : tMono.toNat < 2 ^ 63)
    (h : pktdropComplete env cfg tMono recs ⟨rate, tLast⟩ s = some (tm, s', shown)) :
    (0 < r → rate.toNat = r.toNat * 10 ^ 9 ∧ tLast.toNat + rate.toNat < 2 ^ 64 ∧
      (shown = true ↔ cfg.doHist ≠ .none ∧ rate.toNat < tMono.toNat - tLast.toNat)) ∧
    (r < 0 → rate.toNat = 2 ^ 64 - r.natAbs * 10 ^ 9 ∧
      (shown = true ↔ cfg.doHist ≠ .none ∧ r.natAbs * 10 ^ 9 ≤ tLast.toNat)) := by
  obtain ⟨-, rfl⟩ := parseDisplayRate_eq_ok.mp hp
  rw [(pktdropComplete_run h).1, Timer.due_iff]
  dsimp only
  have hle' : tLast.toNat ≤ tMono.toNat := hle
  constructor
  · intro hpos
    have hv := displayRateOf_toNat_of_pos hr hpos
    have hb : r.toNat < 2 ^ 31 := by have := hr.2; omega
    rw [hv]
    exact ⟨rfl, by omega, and_congr_right fun _ => by omega⟩
  · intro hneg
    have hv := displayRateOf_toNat_of_neg hr hneg
    have hb : 0 < r.natAbs ∧ r.natAbs ≤ 2 ^ 31 := by have := hr.1; omega
    rw [hv]
    exact ⟨rfl, and_congr_right fun _ => by omega⟩

/-- -r -1, and pktdrop_complete one second after boot with t_last_display one second too: it
runs show_hist although no time has passed. -/
theorem pktdropComplete_display_rate_minus_one :
    let env : Env 0 := ⟨fun _ => none, fun _ => none⟩
    let cfg := Config.ofMode .netns
    let t : UInt64 := 1000000000
    IsCInt (-1) ∧ parseDisplayRate (some (-1)) = .ok (displayRateOf (-1)) ∧ t ≤ t ∧
      t.toNat < 2 ^ 63 ∧
      pktdropComplete env cfg t [] ⟨displayRateOf (-1), t⟩ State.init =
        some (⟨displayRateOf (-1), t⟩, (showHist cfg State.init).1, true) ∧
      (0 < (-1 : ℤ) → (displayRateOf (-1)).toNat = (-1 : ℤ).toNat * 10 ^ 9 ∧
        t.toNat + (displayRateOf (-1)).toNat < 2 ^ 64 ∧
        (true = true ↔ cfg.doHist ≠ .none ∧ (displayRateOf (-1)).toNat < t.toNat - t.toNat)) ∧
      ((-1 : ℤ) < 0 → (displayRateOf (-1)).toNat = 2 ^ 64 - (-1 : ℤ).natAbs * 10 ^ 9 ∧
        (true = true ↔ cfg.doHist ≠ .none ∧ (-1 : ℤ).natAbs * 10 ^ 9 ≤ t.toNat)) := by
  intro env cfg t
  have hr : IsCInt (-1) := by decide
  have hp : parseDisplayRate (some (-1)) = .ok (displayRateOf (-1)) := rfl
  have hm : t.toNat < 2 ^ 63 := by decide
  have h : pktdropComplete env cfg t [] ⟨displayRateOf (-1), t⟩ State.init =
      some (⟨displayRateOf (-1), t⟩, (showHist cfg State.init).1, true) := by
    simp only [pktdropComplete, List.map_nil, run, Option.map_some']
    rw [if_pos (by decide)]
  exact ⟨hr, hp, le_rfl, hm, h,
    pktdropComplete_display_rate env cfg (-1) _ t t [] State.init _ _ _ hr hp le_rfl hm h⟩

end PktDrop