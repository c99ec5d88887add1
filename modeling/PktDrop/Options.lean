import PktDrop.Timing

/-! The option loop of drop_monitor ("f:ik:m:Or:s:t:TU" with check_sort_arg) and the set-up after
it, read declaratively: a line is refused at its first refused option, else the last one counts. -/
namespace PktDrop

/-- An int as atoi returns it. -/
structure CInt where
  val : ℤ
  isCInt : IsCInt val
  deriving DecidableEq

/-- Why a set-up returns 1: the message it prints on stderr, or the usage text. -/
inductive SetupError
  | msg (s : String)
  | usage
  deriving DecidableEq

/-- One option as getopt returns it for "f:ik:m:Or:s:t:TU", with what drop_monitor reads of its
argument: the int atoi returns for -r and -t, the string for -s, and for -m whether str_to_int
found an int in [64, 32768]. other is a character the switch has no case for. -/
inductive DropOpt
  | f (objfile : String)
  | i
  | k (kallsyms : String)
  | m (pgCntOk : Bool)
  | O
  | r (n : CInt)
  | s (arg : String)
  | t (n : CInt)
  | T
  | U
  | other
  deriving DecidableEq

/-- The globals the option loop sets that the event loop reads, and hist_sort. -/
structure Opts where
  displayRate : UInt64
  skipOvsUpcalls : Bool
  doHist : HistBy
  histSort : Option String
  dropThresh : UInt32
  skipTcp : Bool
  skipUnix : Bool
  deriving DecidableEq

/-- Their static initialisers. -/
def Opts.init : Opts := ⟨10 * nsecPerSec, false, .none, none, 1, false, false⟩

/-- check_sort_arg. -/
def checkSortArg (arg : String) (o : Opts) : Except SetupError Opts :=
  if arg = "netns" then .ok { o with histSort := some "network namespace", doHist := .netns }
  else if arg = "dmac" then .ok { o with histSort := some "destination mac", doHist := .dmac }
  else if arg = "smac" then .ok { o with histSort := some "source mac", doHist := .smac }
  else if arg = "dip" then .ok { o with histSort := some "destination ip", doHist := .dip }
  else if arg = "sip" then .ok { o with histSort := some "source ip", doHist := .sip }
  else if arg = "flow" then .ok { o with histSort := some "dmac and flow", doHist := .flow }
  else .error (.msg "Invalid sort option")

/-- drop_thresh = r: the int converted to unsigned int, modulo 2^32. -/
def dropThreshOf (n : ℤ) : UInt32 := UInt32.ofNat (n % 2 ^ 32).toNat

/-- One pass of the getopt loop of drop_monitor. -/
def dropMonitorOpt (o : Opts) : DropOpt → Except SetupError Opts
  | .f _ | .i | .k _ => .ok o
  | .m ok => if ok then .ok o else .error (.msg "Invalid page count")
  | .O => .ok { o with skipOvsUpcalls := true }
  | .r n =>
    if n.val = 0 then .error (.msg "Invalid display rate")
    else .ok { o with displayRate := displayRateOf n.val }
  | .s arg => checkSortArg arg o
  | .t n =>
    if n.val = 0 then .error (.msg "Invalid drop threshold")
    else .ok { o with dropThresh := dropThreshOf n.val }
  | .T => .ok { o with skipTcp := true }
  | .U => .ok { o with skipUnix := true }
  | .other => .error .usage

/-- The getopt loop of drop_monitor. -/
def parseDropOpts (os : List DropOpt) : Except SetupError Opts :=
  os.foldlM dropMonitorOpt Opts.init

/-- What drop_monitor does after its option loop for the globals the event loop reads. ovsSym is
what find_ksym_by_name returns for queue_userspace_packet, tNow the monotonic clock when the
event loop starts; the set-up calls into code outside the model are taken to succeed. -/
def dropMonitor (ovsSym : Option Ksym) (tNow : UInt64) (os : List DropOpt) :
    Except SetupError (Config × Timer) := do
  let o ← parseDropOpts os
  if o.skipOvsUpcalls ∧ ovsSym = none then
    throw (.msg "Failed to find symbol entry for queue_userspace_packet")
  let histSkip := if o.doHist = .dip ∨ o.doHist = .sip then histDisableNonIpv4 else fun _ => false
  pure (⟨o.doHist, o.dropThresh, histSkip, o.skipOvsUpcalls, o.skipUnix, o.skipTcp, ovsSym⟩,
    ⟨o.displayRate, if o.doHist ≠ .none then tNow else 0⟩)

/-! ### The loop read declaratively -/

/-- The -s arguments check_sort_arg knows, with do_hist and hist_sort for each. -/
def sortTable : List (String × HistBy × String) :=
  [("netns", .netns, "network namespace"), ("dmac", .dmac, "destination mac"),
    ("smac", .smac, "source mac"), ("dip", .dip, "destination ip"), ("sip", .sip, "source ip"),
    ("flow", .flow, "dmac and flow")]

/-- Why an option is refused, from its own argument; none when the loop accepts it. -/
def DropOpt.check : DropOpt → Option SetupError
  | .m false => some (.msg "Invalid page count")
  | .r n => if n.val = 0 then some (.msg "Invalid display rate") else none
  | .s arg => if (sortTable.lookup arg).isSome then none else some (.msg "Invalid sort option")
  | .t n => if n.val = 0 then some (.msg "Invalid drop threshold") else none
  | .other => some .usage
  | _ => none

/-- The int of an -r. -/
def DropOpt.rate : DropOpt → Option ℤ
  | .r n => some n.val
  | _ => none

/-- The mode and hist_sort text of an -s. -/
def DropOpt.sort : DropOpt → Option (HistBy × String)
  | .s arg => sortTable.lookup arg
  | _ => none

/-- The int of a -t. -/
def DropOpt.thresh : DropOpt → Option ℤ
  | .t n => some n.val
  | _ => none

/-- The last value a line gives to one kind of option. -/
def lastArg {α : Type} (sel : DropOpt → Option α) (os : List DropOpt) : Option α :=
  (os.filterMap sel).getLast?

/-- The globals a line sets, each from the last option that sets it or from its initialiser,
the flags from whether their option occurs. -/
def optsOf (os : List DropOpt) : Opts where
  displayRate := ((lastArg DropOpt.rate os).map displayRateOf).getD (10 * nsecPerSec)
  skipOvsUpcalls := os.contains .O
  doHist := ((lastArg DropOpt.sort os).map (·.1)).getD .none
  histSort := (lastArg DropOpt.sort os).map (·.2)
  dropThresh := ((lastArg DropOpt.thresh os).map dropThreshOf).getD 1
  skipTcp := os.contains .T
  skipUnix := os.contains .U

@[simp] theorem lastArg_nil {α : Type} (sel : DropOpt → Option α) : lastArg sel [] = none := rfl

@[simp] theorem lastArg_concat {α : Type} (sel : DropOpt → Option α) (os : List DropOpt)
    (p : DropOpt) : lastArg sel (os ++ [p]) = (sel p).or (lastArg sel os) := by
  unfold lastArg
  cases h : sel p with
  | none => simp only [List.filterMap_append, List.filterMap_cons, List.filterMap_nil, h,
      List.append_nil, Option.none_or]
  | some a => simp only [List.filterMap_append, List.filterMap_cons, List.filterMap_nil, h,
      List.getLast?_concat]; rfl

theorem checkSortArg_eq (arg : String) (o : Opts) :
    checkSortArg arg o = match sortTable.lookup arg with
      | some (m, txt) => .ok { o with histSort := some txt, doHist := m }
      | none => .error (.msg "Invalid sort option") := by
  rw [checkSortArg]
  by_cases h₁ : arg = "netns"
  · subst h₁; rfl
  by_cases h₂ : arg = "dmac"
  · subst h₂; rfl
  by_cases h₃ : arg = "smac"
  · subst h₃; rfl
  by_cases h₄ : arg = "dip"
  · subst h₄; rfl
  by_cases h₅ : arg = "sip"
  · subst h₅; rfl
  by_cases h₆ : arg = "flow"
  · subst h₆; rfl
  simp [h₁, h₂, h₃, h₄, h₅, h₆, sortTable, List.lookup_cons, List.lookup_nil,
    beq_false_of_ne]

/-- One pass of the loop on the globals of a line it accepted so far: the option's refusal, or
the globals of the line extended by it. -/
theorem dropMonitorOpt_optsOf (os : List DropOpt) (p : DropOpt) :
    dropMonitorOpt (optsOf os) p = match p.check with
      | some e => .error e
      | none => .ok (optsOf (os ++ [p])) := by
  cases p with
  | s arg =>
    rw [dropMonitorOpt, checkSortArg_eq]
    cases hl : sortTable.lookup arg <;> simp [DropOpt.check, hl, optsOf, DropOpt.rate,
      DropOpt.sort, DropOpt.thresh]
  | m ok => cases ok <;> simp [dropMonitorOpt, DropOpt.check, optsOf, DropOpt.rate, DropOpt.sort,
      DropOpt.thresh]
  | r n | t n => by_cases h : n.val = 0 <;> simp [dropMonitorOpt, DropOpt.check, h, optsOf,
      DropOpt.rate, DropOpt.sort, DropOpt.thresh]
  | _ => simp only [dropMonitorOpt, optsOf, List.elem_eq_mem, DropOpt.check, lastArg_concat,
      DropOpt.rate, DropOpt.sort, DropOpt.thresh, Option.none_or, List.mem_append,
      List.mem_singleton, or_true, or_false, decide_True, reduceCtorEq]

theorem parseDropOpts_concat (os : List DropOpt) (p : DropOpt) :
    parseDropOpts (os ++ [p]) = parseDropOpts os >>= fun o => dropMonitorOpt o p := by
  simp [parseDropOpts, List.foldlM_append]

/-- The option loop refuses a line at its first refused option, with that option's message; a
line with none sets each global from the last option that sets it. -/
theorem parseDropOpts_eq (os : List DropOpt) :
    parseDropOpts os = match (os.filterMap DropOpt.check).head? with
      | some e => .error e
      | none => .ok (optsOf os) := by
  induction os using List.reverseRecOn with
  | nil => rfl
  | append_singleton os p ih =>
    rw [parseDropOpts_concat, ih, List.filterMap_append, List.head?_append]
    cases hc : (os.filterMap DropOpt.check).head? with
    | some e => rfl
    | none =>
      show dropMonitorOpt (optsOf os) p = _
      rw [dropMonitorOpt_optsOf, Option.none_or]
      cases hp : p.check <;> simp [hp]

/-! ### What the set-up hands the event loop -/

theorem dropThreshOf_toNat (n : ℤ) : ((dropThreshOf n).toNat : ℤ) = n % 2 ^ 32 := by
  rw [dropThreshOf, UInt32.toNat_ofNat_of_lt (by rw [UInt32.size]; omega)]
  omega

/-- -t refuses only 0, and no other int becomes 0 as an unsigned int. -/
theorem dropThreshOf_ne_zero {n : ℤ} (hn : IsCInt n) (h : n ≠ 0) : dropThreshOf n ≠ 0 := by
  intro h0
  have hv := dropThreshOf_toNat n
  rw [h0, UInt32.toNat_zero, Nat.cast_zero] at hv
  have := hn.1
  have := hn.2
  omega

/-- -r refuses only 0, and r * NSEC_PER_SEC is 0 modulo 2^64 for no other int. -/
theorem displayRateOf_ne_zero {n : ℤ} (hn : IsCInt n) (h : n ≠ 0) : displayRateOf n ≠ 0 := by
  intro h0
  have hz : (displayRateOf n).toNat = 0 := by rw [h0]; rfl
  rcases lt_or_gt_of_ne h with hneg | hpos
  · have := displayRateOf_toNat_of_neg hn hneg
    have := hn.1
    omega
  · have := displayRateOf_toNat_of_pos hn hpos
    omega

theorem lastArg_mem {α : Type} {sel : DropOpt → Option α} {os : List DropOpt} {a : α}
    (h : lastArg sel os = some a) : ∃ p ∈ os, sel p = some a :=
  List.mem_filterMap.mp (List.mem_of_mem_getLast? h)

theorem accepted_of_head?_eq_none {os : List DropOpt}
    (h : (os.filterMap DropOpt.check).head? = none) : ∀ p ∈ os, p.check = none :=
  List.filterMap_eq_nil_iff.mp (List.head?_eq_none_iff.mp h)

/-- What drop_monitor's set-up hands the event loop for a line it accepts: the line's globals,
with drop_thresh and display_rate never 0. -/
structure SetUp (os : List DropOpt) (cfg : Config) (tm : Timer) : Prop where
  accepted : ∀ p ∈ os, p.check = none
  doHist : cfg.doHist = (optsOf os).doHist
  dropThresh : cfg.dropThresh = (optsOf os).dropThresh
  dropThresh_ne_zero : cfg.dropThresh ≠ 0
  displayRate : tm.displayRate = (optsOf os).displayRate
  displayRate_ne_zero : tm.displayRate ≠ 0

theorem optsOf_dropThresh_ne_zero {os : List DropOpt} (hacc : ∀ p ∈ os, p.check = none) :
    (optsOf os).dropThresh ≠ 0 := by
  cases hl : lastArg DropOpt.thresh os with
  | none => simp [optsOf, hl]
  | some n =>
    obtain ⟨p, hp, hpn⟩ := lastArg_mem hl
    cases p with
    | t m =>
      cases hpn
      have hc := hacc _ hp
      simp only [DropOpt.check, ite_eq_right_iff, reduceCtorEq, imp_false] at hc
      simpa [optsOf, hl] using dropThreshOf_ne_zero m.isCInt hc
    | _ => cases hpn

theorem optsOf_displayRate_ne_zero {os : List DropOpt} (hacc : ∀ p ∈ os, p.check = none) :
    (optsOf os).displayRate ≠ 0 := by
  cases hl : lastArg DropOpt.rate os with
  | none => simp only [optsOf, hl, Option.map_none', Option.getD_none]; decide
  | some n =>
    obtain ⟨p, hp, hpn⟩ := lastArg_mem hl
    cases p with
    | r m =>
      cases hpn
      have hc := hacc _ hp
      simp only [DropOpt.check, ite_eq_right_iff, reduceCtorEq, imp_false] at hc
      simpa [optsOf, hl] using displayRateOf_ne_zero m.isCInt hc
    | _ => cases hpn

/-- With every -r of the line positive, display_rate is the last -r in seconds, or ten. -/
theorem optsOf_displayRate_toNat {os : List DropOpt} (hpos : ∀ n, DropOpt.r n ∈ os → 0 < n.val) :
    (optsOf os).displayRate.toNat = ((lastArg DropOpt.rate os).getD 10).toNat * 10 ^ 9 ∧
      ((lastArg DropOpt.rate os).getD 10).toNat < 2 ^ 31 := by
  cases hl : lastArg DropOpt.rate os with
  | none => simp only [optsOf, hl, Option.map_none', Option.getD_none]; decide
  | some n =>
    obtain ⟨p, hp, hpn⟩ := lastArg_mem hl
    cases p with
    | r m =>
      cases hpn
      have hb := m.isCInt.2
      have hm := hpos m hp
      simp only [optsOf, hl, Option.map_some', Option.getD_some,
        displayRateOf_toNat_of_pos m.isCInt hm]
      exact ⟨trivial, by omega⟩
    | _ => cases hpn

/-- A set-up that succeeds: the line has no refused option, -O has its symbol, and the
configuration and timer are the line's globals. -/
theorem dropMonitor_eq_ok {ovsSym : Option Ksym} {tNow : UInt64} {os : List DropOpt}
    {cfg : Config} {tm : Timer} (h : dropMonitor ovsSym tNow os = .ok (cfg, tm)) :
    (∀ p ∈ os, p.check = none) ∧ ¬((optsOf os).skipOvsUpcalls = true ∧ ovsSym = none) ∧
      cfg = ⟨(optsOf os).doHist, (optsOf os).dropThresh,
        if (optsOf os).doHist = .dip ∨ (optsOf os).doHist = .sip then histDisableNonIpv4
        else fun _ => false,
        (optsOf os).skipOvsUpcalls, (optsOf os).skipUnix, (optsOf os).skipTcp, ovsSym⟩ ∧
      tm = ⟨(optsOf os).displayRate, if (optsOf os).doHist ≠ .none then tNow else 0⟩ := by
  simp only [dropMonitor, parseDropOpts_eq] at h
  cases hc : (os.filterMap DropOpt.check).head? with
  | some e => rw [hc] at h; cases h
  | none =>
    rw [hc] at h
    dsimp only [bind, Except.bind] at h
    by_cases hovs : (optsOf os).skipOvsUpcalls = true ∧ ovsSym = none
    · rw [if_pos hovs] at h; cases h
    rw [if_neg hovs] at h
    cases h
    exact ⟨accepted_of_head?_eq_none hc, hovs, rfl, rfl⟩

/-- Every configuration and timer drop_monitor sets up. -/
theorem dropMonitor_setUp {ovsSym : Option Ksym} {tNow : UInt64} {os : List DropOpt}
    {cfg : Config} {tm : Timer} (h : dropMonitor ovsSym tNow os = .ok (cfg, tm)) :
    SetUp os cfg tm := by
  obtain ⟨hacc, -, rfl, rfl⟩ := dropMonitor_eq_ok h
  exact ⟨hacc, rfl, rfl, optsOf_dropThresh_ne_zero hacc, rfl, optsOf_displayRate_ne_zero hacc⟩

/-- -s dip with -t -1: drop_thresh becomes 2^32 - 1. -/
theorem dropMonitor_setUp_dip :
    let os := [DropOpt.s "dip", .t ⟨-1, by decide⟩]
    ∃ cfg tm, dropMonitor none 0 os = .ok (cfg, tm) ∧ cfg.dropThresh.toNat = 2 ^ 32 - 1 ∧
      SetUp os cfg tm := by
  intro os
  have h : dropMonitor none 0 os = .ok (⟨.dip, dropThreshOf (-1), histDisableNonIpv4, false, false,
      false, none⟩, ⟨10 * nsecPerSec, 0⟩) := rfl
  exact ⟨_, _, h, by decide, dropMonitor_setUp h⟩

end PktDrop
