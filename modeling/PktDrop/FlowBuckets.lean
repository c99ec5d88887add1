import PktDrop.Basic
import Mathlib.Data.List.Count
import Mathlib.Algebra.BigOperators.Group.List

/-! The flow buckets of flow mode: process_flow and the list pass of show_flow_buckets.
A bucket is the list flb->flows, newest first (list_add), with its counters and flags. -/
namespace PktDrop

/-- struct flow_entry; its list_head is its place in the list. -/
structure FlowEntry where
  hits : UInt32
  aging : UInt8
  flow : Flow
  deriving DecidableEq

/-- struct flow_buckets. -/
structure FlowBuckets where
  flows : List FlowEntry
  flowCount : UInt8
  overflow : Bool
  failures : Bool
  deriving DecidableEq

namespace FlowBuckets

/-- The bucket of a calloc'd drop_hist after INIT_LIST_HEAD. -/
def empty : FlowBuckets := ⟨[], 0, false, false⟩

/-- The flows listed in the bucket. -/
def keys (flb : FlowBuckets) : List Flow := flb.flows.map (·.flow)

end FlowBuckets

/-- The aging step of every sweep: if (total) aging = 3; else if (--aging == 0) the entry dies.
Returns the new credit and whether it reached 0; the u8 decrement wraps. -/
def age (total : UInt32) (aging : UInt8) : UInt8 × Bool :=
  if total ≠ 0 then (3, false) else (aging - 1, aging - 1 = 0)

/-- hits++ on the record of a flow. -/
def bumpFlow (flow : Flow) (e : FlowEntry) : FlowEntry :=
  if e.flow = flow then { e with hits := e.hits + 1 } else e

/-- The scan of process_flow: hits++ on the first entry whose flow is memcmp-equal,
none when the scan reaches the end of the list. -/
def hitFlow (flow : Flow) : List FlowEntry → Option (List FlowEntry)
  | [] => none
  | e :: es =>
    if e.flow = flow then some ({ e with hits := e.hits + 1 } :: es)
    else (hitFlow flow es).map (e :: ·)

/-- process_flow; alloc is the outcome of its calloc. flow_count is compared but never written. -/
def processFlow (alloc : Bool) (flb : FlowBuckets) (flow : Flow) : FlowBuckets :=
  match hitFlow flow flb.flows with
  | some fs => { flb with flows := fs }
  | none =>
    if flb.flowCount > maxFlowEntries then { flb with overflow := true }
    else if !alloc then { flb with failures := true }
    else { flb with flows := ⟨1, 0, flow⟩ :: flb.flows }

/-- How a process_flow call ends. -/
inductive FlowOutcome
  | hit | added | overflow | failure
  deriving DecidableEq, Repr

/-- The branch process_flow takes. -/
def flowOutcome (alloc : Bool) (flb : FlowBuckets) (flow : Flow) : FlowOutcome :=
  if flow ∈ flb.keys then .hit
  else if flb.flowCount > maxFlowEntries then .overflow
  else if alloc then .added else .failure

/-- The call is counted in a record's hits. -/
def FlowOutcome.accepted : FlowOutcome → Bool
  | .hit | .added => true
  | .overflow | .failure => false

/-- One step of list_for_each_entry_safe in show_flow_buckets: the entry survives with hits
zeroed, or it is list_del'd and freed (the code then writes hits = 0 to the freed entry). -/
def ageFlowEntry (e : FlowEntry) : Option FlowEntry :=
  if (age e.hits e.aging).2 then none else some { e with aging := (age e.hits e.aging).1, hits := 0 }

/-- The list pass of show_flow_buckets; flow_count and both flags are left as they are. -/
def sweepFlows (flb : FlowBuckets) : FlowBuckets :=
  { flb with flows := flb.flows.filterMap ageFlowEntry }

theorem hitFlow_eq_none {flow : Flow} {fs : List FlowEntry} :
    hitFlow flow fs = none ↔ flow ∉ fs.map (·.flow) := by
  induction fs with
  | nil => simp [hitFlow]
  | cons e es ih =>
    by_cases h : e.flow = flow
    · simp [hitFlow, h]
    · simp [hitFlow, h, ih, Ne.symm h]

theorem hitFlow_isSome {flow : Flow} {fs : List FlowEntry} :
    (hitFlow flow fs).isSome ↔ flow ∈ fs.map (·.flow) := by
  rw [← not_iff_not, Option.not_isSome_iff_eq_none, hitFlow_eq_none]

/-- A hit bumps the record of the flow: the first one, which is the only one when the
flows are distinct. -/
theorem hitFlow_some {flow : Flow} {fs fs' : List FlowEntry} (hd : (fs.map (·.flow)).Nodup)
    (h : hitFlow flow fs = some fs') :
    fs' = fs.map (bumpFlow flow) := by
  induction fs generalizing fs' with
  | nil => cases h
  | cons e es ih =>
    simp only [List.map_cons, List.nodup_cons, List.mem_map] at hd
    by_cases he : e.flow = flow
    · simp only [hitFlow, he, if_true, Option.some.injEq] at h
      subst h
      have : ∀ x ∈ es, x.flow ≠ flow := fun x hx hx' => hd.1 ⟨x, hx, hx'.trans he.symm⟩
      have hes : es.map (bumpFlow flow) = es :=
        (List.map_congr_left fun x hx => by simp [bumpFlow, this x hx]).trans (List.map_id es)
      simp [bumpFlow, he, hes]
    · simp only [hitFlow, he, if_false] at h
      obtain ⟨fs'', h', rfl⟩ := Option.map_eq_some'.mp h
      simp [bumpFlow, he, ih hd.2 h']

@[simp] theorem bumpFlow_flow (flow : Flow) (e : FlowEntry) : (bumpFlow flow e).flow = e.flow := by
  unfold bumpFlow; split_ifs <;> rfl

@[simp] theorem bumpFlow_aging (flow : Flow) (e : FlowEntry) :
    (bumpFlow flow e).aging = e.aging := by
  unfold bumpFlow; split_ifs <;> rfl

/-- process_flow, branch by branch. -/
theorem processFlow_eq (alloc : Bool) (flb : FlowBuckets) (flow : Flow)
    (hd : flb.keys.Nodup) :
    processFlow alloc flb flow =
      match flowOutcome alloc flb flow with
      | .hit => { flb with flows := flb.flows.map (bumpFlow flow) }
      | .added => { flb with flows := ⟨1, 0, flow⟩ :: flb.flows }
      | .overflow => { flb with overflow := true }
      | .failure => { flb with failures := true } := by
  unfold processFlow flowOutcome
  cases hh : hitFlow flow flb.flows with
  | some fs =>
    have hk : flow ∈ flb.keys := hitFlow_isSome.mp (by rw [hh]; rfl)
    simp [hk, hitFlow_some hd hh]
  | none =>
    have hk : flow ∉ flb.keys := hitFlow_eq_none.mp hh
    by_cases ho : flb.flowCount > maxFlowEntries
    · simp [hk, ho]
    · cases alloc <;> simp [hk, ho]

/-- flow_count is never written, so it keeps the value calloc gave it. -/
@[simp] theorem processFlow_flowCount (alloc : Bool) (flb : FlowBuckets) (flow : Flow) :
    (processFlow alloc flb flow).flowCount = flb.flowCount := by
  unfold processFlow
  split
  · rfl
  · split_ifs <;> rfl

@[simp] theorem sweepFlows_flowCount (flb : FlowBuckets) :
    (sweepFlows flb).flowCount = flb.flowCount := rfl

/-- A record that survives the sweep keeps its flow and has hits zeroed. -/
theorem ageFlowEntry_eq_some {e e' : FlowEntry} (h : ageFlowEntry e = some e') :
    e'.flow = e.flow ∧ e'.hits = 0 := by
  unfold ageFlowEntry at h
  split_ifs at h
  cases h
  exact ⟨rfl, rfl⟩

theorem sweepFlows_keys_sublist (flb : FlowBuckets) : (sweepFlows flb).keys.Sublist flb.keys := by
  unfold sweepFlows FlowBuckets.keys
  induction flb.flows with
  | nil => exact List.Sublist.slnil
  | cons e es ih =>
    rw [List.filterMap_cons]
    cases h : ageFlowEntry e with
    | none => exact ih.cons _
    | some e' => simpa [(ageFlowEntry_eq_some h).1] using ih.cons₂ e.flow

/-- The flags of process_flow: overflow is set by the capacity branch, failures by a failed
calloc, and neither is ever cleared. -/
theorem processFlow_flags (alloc : Bool) (flb : FlowBuckets) (flow : Flow) :
    (processFlow alloc flb flow).overflow =
        (flb.overflow || flowOutcome alloc flb flow == .overflow) ∧
      (processFlow alloc flb flow).failures =
        (flb.failures || flowOutcome alloc flb flow == .failure) := by
  unfold processFlow flowOutcome
  cases hh : hitFlow flow flb.flows with
  | some fs =>
    have hk : flow ∈ flb.keys := hitFlow_isSome.mp (by rw [hh]; rfl)
    simp [hk]
  | none =>
    have hk : flow ∉ flb.keys := hitFlow_eq_none.mp hh
    by_cases ho : flb.flowCount > maxFlowEntries
    · simp [hk, ho]
    · cases alloc <;> simp [hk, ho]

/-- With flow_count at 0 the capacity test never fires: a new flow is rejected only when
its calloc fails. -/
theorem flowOutcome_of_flowCount_zero {flb : FlowBuckets} (h : flb.flowCount = 0)
    (alloc : Bool) (flow : Flow) : flowOutcome alloc flb flow ≠ .overflow := by
  unfold flowOutcome
  have : ¬ flb.flowCount > maxFlowEntries := by rw [h]; decide
  split_ifs <;> simp

theorem flowOutcome_eq_hit {a : Bool} {flb : FlowBuckets} {fl : Flow} :
    flowOutcome a flb fl = .hit ↔ fl ∈ flb.keys := by
  unfold flowOutcome; split_ifs <;> simp_all

end PktDrop
