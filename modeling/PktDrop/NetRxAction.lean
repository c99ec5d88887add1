import PktDrop.Options

/-! net_rx_action.c: dump_buckets prints each bucket's growth since the previous dump, in unsigned
64-bit arithmetic; net_rx_action.h is not among the sources, so its bucket layout is a Layout. -/
namespace PktDrop.NetRxAction

/-- The constants of net_rx_action.h the code uses: NET_RX_NUM_BKTS buckets, of which
NET_RX_ERR_BKT counts errors; dump_buckets prints diff[0] .. diff[9], so there are at least ten. -/
structure Layout where
  numBkts : ℕ
  errBkt : Fin numBkts
  ten_le : 10 ≤ numBkts

/-- The rows of a dump: the error count, then the ten time buckets. -/
inductive Row
  | errors
  | time (j : Fin 10)
  deriving DecidableEq

/-- The rows in the order dump_buckets prints them. -/
def Row.all : List Row := .errors :: (List.finRange 10).map .time

/-- The bucket whose difference a row prints: diff[NET_RX_ERR_BKT], or diff[j]. -/
def Row.bkt (L : Layout) : Row → Fin L.numBkts
  | .errors => L.errBkt
  | .time j => Fin.castLE L.ten_le j

/-- One line of net_rx_action's output, with the value its format string prints; the timestamp,
the column titles and the bucket bounds are formatting. -/
inductive DumpLine
  | count (r : Row) (n : UInt64)
  | msg (s : String)
  deriving DecidableEq

section
variable (L : Layout)

/-- dump_buckets: diff[i] = buckets[i] - prev_buckets[i] and prev_buckets[i] = buckets[i] for
every bucket, then the rows. Returns the new prev_buckets and the lines. -/
def dumpBuckets (buckets prevBuckets : Fin L.numBkts → UInt64) :
    (Fin L.numBkts → UInt64) × List DumpLine :=
  let diff := fun i => buckets i - prevBuckets i
  (buckets, Row.all.map fun r => .count r (diff (r.bkt L)))

/-- net_rx_dump_hist: val is entry 0 of net_rx_map, none when bpf_map_lookup_elem fails; then it
prints the message and returns 1 with prev_buckets as they were. Returns prev_buckets, the lines
and whether it returned 1. -/
def netRxDumpHist (val : Option (Fin L.numBkts → UInt64)) (prevBuckets : Fin L.numBkts → UInt64) :
    (Fin L.numBkts → UInt64) × List DumpLine × Bool :=
  match val with
  | none => (prevBuckets, [.msg "Failed to get hist values"], true)
  | some buckets =>
    let r := dumpBuckets L buckets prevBuckets
    (r.1, r.2 ++ [.msg ""], false)

/-- The loop of main: sleep, then net_rx_dump_hist, until it returns 1 or done is set. vals holds
the lookup outcome of each pass; the loop ends when they run out (a signal set done). Returns
prev_buckets and the lines printed. -/
def dumpLoop : List (Option (Fin L.numBkts → UInt64)) → (Fin L.numBkts → UInt64) →
    (Fin L.numBkts → UInt64) × List DumpLine
  | [], prev => (prev, [])
  | v :: vals, prev =>
    let r := netRxDumpHist L v prev
    if r.2.2 then (r.1, r.2.1)
    else
      let q := dumpLoop vals r.1
      (q.1, r.2.1 ++ q.2)

end

/-- One option as getopt returns it for "f:t:": -f with its file, -t with the int atoi returns,
or a character the switch has no case for. -/
inductive NetRxOpt
  | f (objfile : String)
  | t (n : CInt)
  | other

/-- One pass of the getopt loop of main: display_rate, or why main returns 1. -/
def netRxOpt (displayRate : ℤ) : NetRxOpt → Except SetupError ℤ
  | .f _ => .ok displayRate
  | .t n => if n.val = 0 then .error (.msg "Invalid display rate") else .ok n.val
  | .other => .error .usage

/-- main: the option loop, the set-up (setupOk) and the dump loop, with the lines printed and
the exit status, which is 0 once the loop is reached. -/
def netRxMain (L : Layout) (os : List NetRxOpt) (setupOk : Bool)
    (vals : List (Option (Fin L.numBkts → UInt64))) : Except SetupError (List DumpLine × ℕ) := do
  let _ ← os.foldlM netRxOpt 10
  pure (if setupOk then ((dumpLoop L vals fun _ => 0).2, 0) else ([], 1))

/-! ### What the dumps add up to -/

/-- The values printed in row r, in order. -/
def printed (r : Row) (ls : List DumpLine) : List UInt64 :=
  ls.filterMap fun
    | .count r' n => if r' = r then some n else none
    | .msg _ => none

/-- The maps read before the first failed lookup. -/
def readVals {α : Type} : List (Option α) → List α
  | some b :: vals => b :: readVals vals
  | _ => []

@[simp] theorem printed_append (r : Row) (ls ls' : List DumpLine) :
    printed r (ls ++ ls') = printed r ls ++ printed r ls' :=
  List.filterMap_append _ _ _

@[simp] theorem printed_msg (r : Row) (s : String) : printed r [.msg s] = [] := rfl

theorem Row.all_nodup : Row.all.Nodup := by decide

theorem Row.mem_all : ∀ r : Row, r ∈ Row.all
  | .errors => List.mem_cons_self _ _
  | .time j => List.mem_cons_of_mem _ (List.mem_map_of_mem _ (List.mem_finRange j))

/-- Over a list that holds r once, selecting r gives the one value at r. -/
theorem filterMap_eq_at {α β : Type} [DecidableEq α] (g : α → β) {r : α} :
    ∀ {l : List α}, l.Nodup → r ∈ l →
      l.filterMap (fun x => if x = r then some (g x) else none) = [g r]
  | a :: l, hl, hr => by
    rw [List.filterMap_cons]
    by_cases ha : a = r
    · subst ha
      rw [if_pos rfl, List.filterMap_eq_nil_iff.mpr fun x hx =>
        if_neg fun (h : x = a) => (List.nodup_cons.mp hl).1 (h ▸ hx)]
    · rw [if_neg ha]
      exact filterMap_eq_at g (List.nodup_cons.mp hl).2
        ((List.mem_cons.mp hr).resolve_left (Ne.symm ha))

/-- A dump prints each row once, with its bucket's difference. -/
theorem printed_dumpBuckets (L : Layout) (buckets prev : Fin L.numBkts → UInt64) (r : Row) :
    printed r (dumpBuckets L buckets prev).2 = [buckets (r.bkt L) - prev (r.bkt L)] := by
  rw [← filterMap_eq_at (fun x => buckets (x.bkt L) - prev (x.bkt L)) Row.all_nodup (Row.mem_all r),
    dumpBuckets, printed, List.filterMap_map]
  rfl

theorem toNat_sub_eq (a b : UInt64) :
    (a - b).toNat = (2 ^ 64 - b.toNat + a.toNat) % 2 ^ 64 := by
  simp [UInt64.sub_def, UInt64.toNat, BitVec.toNat_sub]

/-- One pass of the loop on a map read: the dump against prev_buckets, and the map saved. -/
theorem dumpLoop_some (L : Layout) (b : Fin L.numBkts → UInt64)
    (vals : List (Option (Fin L.numBkts → UInt64))) (prev : Fin L.numBkts → UInt64) :
    dumpLoop L (some b :: vals) prev =
      ((dumpLoop L vals b).1, (dumpBuckets L b prev).2 ++ [.msg ""] ++ (dumpLoop L vals b).2) :=
  rfl

/-- The loop ends with prev_buckets the last map it read, and prints, per row, the differences
of consecutive reads, the first against the prev_buckets it started from. -/
theorem dumpLoop_printed (L : Layout) (vals : List (Option (Fin L.numBkts → UInt64)))
    (prev : Fin L.numBkts → UInt64) (r : Row) :
    (dumpLoop L vals prev).1 = (readVals vals).getLast?.getD prev ∧
      printed r (dumpLoop L vals prev).2 =
        List.zipWith (fun b a => b (r.bkt L) - a (r.bkt L)) (readVals vals)
          (prev :: readVals vals) := by
  induction vals generalizing prev with
  | nil => exact ⟨rfl, rfl⟩
  | cons v vals ih =>
    cases v with
    | none => exact ⟨rfl, rfl⟩
    | some b =>
      obtain ⟨ih₁, ih₂⟩ := ih b
      rw [dumpLoop_some, printed_append, printed_append, printed_dumpBuckets, printed_msg, ih₂, ih₁]
      exact ⟨by rw [readVals, List.getLast?_cons, Option.getD_some], rfl⟩

/-- What the dumps add up to: a row's printed counts sum, modulo 2^64, to its counter's growth
from the first saved copy to the last read, and prev_buckets ends as the last read. -/
theorem dumpLoop_counts (L : Layout) (vals : List (Option (Fin L.numBkts → UInt64)))
    (prev : Fin L.numBkts → UInt64) (r : Row) :
    (dumpLoop L vals prev).1 = (readVals vals).getLast?.getD prev ∧
      ((printed r (dumpLoop L vals prev).2).map UInt64.toNat).sum % 2 ^ 64 =
        ((dumpLoop L vals prev).1 (r.bkt L) - prev (r.bkt L)).toNat := by
  refine ⟨(dumpLoop_printed L vals prev r).1, ?_⟩
  induction vals generalizing prev with
  | nil => simp [dumpLoop, printed]
  | cons v vals ih =>
    cases v with
    | none => simp [dumpLoop, netRxDumpHist, printed]
    | some b =>
      have hb := ih b
      rw [dumpLoop_some, printed_append, printed_append, printed_dumpBuckets, printed_msg]
      rw [toNat_sub_eq] at hb ⊢
      simp only [List.map_append, List.sum_append, List.map_cons, List.map_nil, List.sum_cons,
        List.sum_nil, List.append_nil, toNat_sub_eq]
      have := (b (r.bkt L)).toNat_lt_size
      have := (prev (r.bkt L)).toNat_lt_size
      have := ((dumpLoop L vals b).1 (r.bkt L)).toNat_lt_size
      simp only [UInt64.size] at *
      omega

/-- While a counter never goes down between reads (and does not wrap), each count the loop
prints in its row is exactly the counter's growth since the previous read, and the counts add up
to the growth from the prev_buckets the loop started from to the last read. -/
theorem dumpLoop_counts_exact (L : Layout) (vals : List (Option (Fin L.numBkts → UInt64)))
    (prev : Fin L.numBkts → UInt64) (r : Row)
    (hmono : ((prev :: readVals vals).map fun b => (b (r.bkt L)).toNat).Chain' (· ≤ ·)) :
    (printed r (dumpLoop L vals prev).2).map UInt64.toNat =
        List.zipWith (· - ·) ((readVals vals).map fun b => (b (r.bkt L)).toNat)
          ((prev :: readVals vals).map fun b => (b (r.bkt L)).toNat) ∧
      ((printed r (dumpLoop L vals prev).2).map UInt64.toNat).sum + (prev (r.bkt L)).toNat =
        ((dumpLoop L vals prev).1 (r.bkt L)).toNat := by
  induction vals generalizing prev with
  | nil => simp [dumpLoop, printed, readVals]
  | cons v vals ih =>
    cases v with
    | none => simp [dumpLoop, netRxDumpHist, printed, readVals]
    | some b =>
      simp only [readVals, List.map_cons, List.chain'_cons] at hmono
      obtain ⟨hle, hmono⟩ := hmono
      obtain ⟨ih₁, ih₂⟩ := ih b (by simpa only [List.map_cons] using hmono)
      rw [dumpLoop_some, printed_append, printed_append, printed_dumpBuckets, printed_msg]
      simp only [List.map_append, List.map_cons, List.map_nil, List.append_nil, List.singleton_append,
        readVals, List.zipWith_cons_cons, List.sum_cons, UInt64.toNat_sub_of_le _ _ hle]
      exact ⟨by rw [ih₁]; rfl, by omega⟩

theorem dumpLoop_counts_exact_two_reads :
    let L : Layout := ⟨11, 10, by decide⟩
    let vals : List (Option (Fin 11 → UInt64)) := [some fun _ => 5, some fun _ => 7, none]
    let prev : Fin 11 → UInt64 := fun _ => 0
    ((prev :: readVals vals).map fun b => (b (Row.errors.bkt L)).toNat).Chain' (· ≤ ·) ∧
      (printed .errors (dumpLoop L vals prev).2).map UInt64.toNat =
          List.zipWith (· - ·) ((readVals vals).map fun b => (b (Row.errors.bkt L)).toNat)
            ((prev :: readVals vals).map fun b => (b (Row.errors.bkt L)).toNat) ∧
        ((printed .errors (dumpLoop L vals prev).2).map UInt64.toNat).sum +
            (prev (Row.errors.bkt L)).toNat =
          ((dumpLoop L vals prev).1 (Row.errors.bkt L)).toNat := by
  intro L vals prev
  have hmono : ((prev :: readVals vals).map fun b => (b (Row.errors.bkt L)).toNat).Chain' (· ≤ ·) :=
    List.chain'_cons.mpr ⟨by decide, List.chain'_pair.mpr (by decide)⟩
  exact ⟨hmono, dumpLoop_counts_exact L vals prev .errors hmono⟩

end PktDrop.NetRxAction
