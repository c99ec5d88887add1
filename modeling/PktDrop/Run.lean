import PktDrop.Report

/-! The event loop as a state machine: process_event for each delivered record, show_hist at
each report. A run stops at a crash. -/
namespace PktDrop

/-- One input of the event loop: a perf record with the outcomes of its callocs, or a report. -/
inductive Input (cap : ℕ)
  | event (d : Data cap) (a : Alloc)
  | report

/-- One step: process_event, or show_hist. -/
def step (env : Env cap) (cfg : Config) : Input cap → State → Option (State × List Line)
  | .event d a, s => processEvent env cfg d a s
  | .report, s => some (showHist cfg s)

/-- The state after a sequence of inputs; none once a step crashes. -/
def run (env : Env cap) (cfg : Config) : State → List (Input cap) → Option State
  | s, [] => some s
  | s, i :: is => (step env cfg i s).bind fun r => run env cfg r.1 is

/-- A run over two input sequences is the run over the first, then over the second. -/
theorem run_append (env : Env cap) (cfg : Config) (s : State) (is js : List (Input cap)) :
    run env cfg s (is ++ js) = (run env cfg s is).bind fun s' => run env cfg s' js := by
  induction is generalizing s with
  | nil => rfl
  | cons i is ih => simp only [List.cons_append, run, List.append_eq, ih, Option.bind_assoc]

end PktDrop
