import PktDrop.Tree
import PktDrop.FlowBuckets
import PktDrop.Classify

/-! The two stores and the global counters: struct drop_hist, struct drop_loc, the globals of
pktdrop.c, and find_droph / find_dropl with the constructors they call. -/
namespace PktDrop

/-- struct drop_hist. The union of buckets and flb is two fields: a run uses only the one its
mode selects. -/
structure DropHist where
  addr : UInt64
  name : String
  totalDrops : UInt32
  aging : UInt8
  dead : Bool
  buckets : Buckets
  flb : FlowBuckets

/-- struct drop_loc. -/
structure DropLoc where
  addr : UInt64
  name : String
  totalDrops : UInt32
  aging : UInt8
  dead : Bool
  deriving DecidableEq

/-- The globals the event loop updates. -/
structure State where
  allDropHists : Tree DropHist
  allDropLoc : Tree DropLoc
  totalDrops : UInt32
  totalDropsUnix : UInt32
  totalDropsByType : Fin 8 → UInt32
  nsid : UInt32

/-- The state at program start: empty trees, zero counters. -/
def State.init : State := ⟨.nil, .nil, 0, 0, fun _ => 0, 0⟩

/-- The value %d prints for an unsigned int. -/
def asInt (x : UInt32) : ℤ := if x.toNat < 2 ^ 31 then x.toNat else x.toNat - 2 ^ 32

/-- new_droph: a calloc'd entry for addr, named in netns mode; nsid is advanced when a netns
gets a synthesized name. alloc is the outcome of the calloc. -/
def newDroph (env : Env cap) (cfg : Config) (alloc : Bool) (nsid : UInt32) (addr : UInt64) :
    Option DropHist × UInt32 :=
  if !alloc then (none, nsid) else
  let e : DropHist := ⟨addr, "", 0, 0, false, fun _ => 0, .empty⟩
  if cfg.doHist = .netns then
    if addr = 0 then (some { e with name := "<unknown>" }, nsid)
    else match env.findKsym addr with
      | some sym => (some { e with name := sym.name.take 15 }, nsid)
      | none => (some { e with name := ("netns-" ++ toString (asInt nsid)).take 15 }, nsid + 1)
  else (some e, nsid)

/-- new_dropl followed by the initialisation find_dropl does. -/
def newDropl (alloc : Bool) (addr : UInt64) (name : Option String) : Option DropLoc :=
  if alloc then some ⟨addr, (name.getD "").take 63, 0, 0, false⟩ else none

namespace Tree
variable {α : Type} (key : α → UInt64)

/-- The tail of find_X after a failed search: link the new entry (insert_X), freeing it on
-EEXIST; none for a failed calloc. -/
def link (mk : Option α) (t : Tree α) : Tree α × Option α :=
  match mk with
  | none => (t, none)
  | some n =>
    match t.insert key n with
    | some t' => (t', some n)
    | none => (t, none)

/-- The lookup of find_X: the entry with key k, or else the new entry mk linked in. -/
def find (k : UInt64) (mk : Option α) (t : Tree α) : Tree α × Option α :=
  match t.search key k with
  | some e => (t, some e)
  | none => t.link key mk

end Tree

/-- find_droph. -/
def findDroph (env : Env cap) (cfg : Config) (alloc create : Bool) (addr : UInt64) (s : State) :
    State × Option DropHist :=
  match s.allDropHists.search DropHist.addr addr with
  | some e => (s, some e)
  | none =>
    if !create then (s, none) else
    let (mk, nsid) := newDroph env cfg alloc s.nsid addr
    let (t, r) := s.allDropHists.link DropHist.addr mk
    ({ s with allDropHists := t, nsid := nsid }, r)

/-- find_dropl. -/
def findDropl (alloc : Bool) (addr : UInt64) (name : Option String) (t : Tree DropLoc) :
    Tree DropLoc × Option DropLoc :=
  t.find DropLoc.addr addr (newDropl alloc addr name)

/-- The operations the program performs on a store: a lookup that may link a new entry
(find_X), a write through the pointer found for a key, a pass updating every entry in place,
the removal loop, and one removal of the first entry satisfying a test (remove_X). -/
inductive StoreOp (α : Type)
  | find (k : UInt64) (mk : Option α)
  | write (k : UInt64) (f : α → α)
  | sweep (f : α → α)
  | removeDead (p : α → Bool)
  | erase (p : α → Bool)

namespace StoreOp
variable {α : Type} (key : α → UInt64)

def apply : StoreOp α → Tree α → Tree α
  | .find k mk, t => (t.find key k mk).1
  | .write k f, t => t.modify key k f
  | .sweep f, t => t.map f
  | .removeDead p, t => t.removeDead p
  | .erase p, t => (t.eraseFirst p).getD t

/-- What the callers guarantee: a new entry carries the key it is created for (new_X sets
addr), and writes leave addr alone. -/
def KeepsKeys : StoreOp α → Prop
  | .find k mk => ∀ n ∈ mk, key n = k
  | .write _ f | .sweep f => ∀ x, key (f x) = key x
  | .removeDead _ | .erase _ => True

/-- A sequence of operations on a store that starts empty. -/
def run (ops : List (StoreOp α)) : Tree α := ops.foldl (fun t op => op.apply key t) .nil

end StoreOp

namespace Tree
variable {α : Type} (key : α → UInt64)

/-- A fresh key is linked in: insert_X does not return -EEXIST, and the in-order sequence gains
exactly the new entry, in order. -/
theorem link_fresh {t : Tree α} (ht : Ordered key t) {n : α}
    (hn : ∀ x ∈ t.toList, key x ≠ key n) :
    ∃ t', t.link key (some n) = (t', some n) ∧ t'.toList.Perm (n :: t.toList) ∧ Ordered key t' := by
  obtain ⟨t', lo, hi, hi', h1, h2, h3, h4⟩ := insert_fresh key ht hn
  refine ⟨t', by simp [link, hi'], ?_, ?_⟩
  · rw [h1, h2]; exact List.perm_middle
  · unfold Ordered; rw [h2]; exact ordered_insert_split key (h1 ▸ ht) h3 h4

/-- What a lookup does: it finds the entry with key k, or finds none and has nothing to link,
or links the new entry as exactly one more entry. -/
theorem find_cases {t : Tree α} (ht : Ordered key t) {k : UInt64} {mk : Option α}
    (hmk : ∀ n ∈ mk, key n = k) :
    (∃ e, e ∈ t.toList ∧ key e = k ∧ t.find key k mk = (t, some e)) ∨
    ((∀ x ∈ t.toList, key x ≠ k) ∧ mk = none ∧ t.find key k mk = (t, none)) ∨
    (∃ n t', (∀ x ∈ t.toList, key x ≠ k) ∧ mk = some n ∧ t.find key k mk = (t', some n) ∧
      t'.toList.Perm (n :: t.toList) ∧ t'.Ordered key) := by
  cases hs : t.search key k with
  | some e => exact .inl ⟨e, (search_spec key hs).1, (search_spec key hs).2, by simp [find, hs]⟩
  | none =>
    have hn := search_eq_none key ht hs
    cases mk with
    | none => exact .inr (.inl ⟨hn, rfl, by simp [find, hs, link]⟩)
    | some n =>
      obtain ⟨t', h1, h2, h3⟩ := link_fresh key ht (n := n) (by rw [hmk n rfl]; exact hn)
      exact .inr (.inr ⟨n, t', hn, rfl, by simp [find, hs, h1], h2, h3⟩)

/-- A lookup of a present key returns its entry and leaves the store as it is. -/
theorem find_of_mem {t : Tree α} (ht : Ordered key t) {e : α} (he : e ∈ t.toList)
    (mk : Option α) : t.find key (key e) mk = (t, some e) := by
  simp only [find, search_of_mem key ht he]

/-- A lookup of an absent key with a new entry for it links exactly that entry. -/
theorem find_fresh {t : Tree α} (ht : Ordered key t) {n : α}
    (hn : ∀ x ∈ t.toList, key x ≠ key n) :
    ∃ t', t.find key (key n) (some n) = (t', some n) ∧ t'.toList.Perm (n :: t.toList) ∧
      Ordered key t' := by
  obtain ⟨t', h1, h2, h3⟩ := link_fresh key ht hn
  exact ⟨t', by simp only [find, search_of_not_mem key hn, h1], h2, h3⟩

/-- The entry a lookup returns is in the store it leaves, under the key looked up. -/
theorem find_mem {t : Tree α} (ht : Ordered key t) {k : UInt64} {mk : Option α}
    (hmk : ∀ n ∈ mk, key n = k) {e : α} (he : (t.find key k mk).2 = some e) :
    e ∈ (t.find key k mk).1.toList ∧ key e = k := by
  rcases find_cases key ht hmk with ⟨e', h1, h2, h⟩ | ⟨-, -, h⟩ | ⟨n, t', -, rfl, h, hp, -⟩ <;>
    rw [h] at he ⊢ <;> cases he
  · exact ⟨h1, h2⟩
  · exact ⟨hp.mem_iff.mpr (List.mem_cons_self _ _), hmk _ rfl⟩

/-- After a lookup of k, a search for k finds what the lookup returned; other searches are
unchanged. -/
theorem search_find {t : Tree α} (ht : Ordered key t) {k : UInt64} {mk : Option α}
    (hmk : ∀ n ∈ mk, key n = k) (k' : UInt64) :
    (t.find key k mk).1.search key k' =
      if k' = k then (t.find key k mk).2 else t.search key k' := by
  rcases find_cases key ht hmk with ⟨e, he, hk, h⟩ | ⟨hn, -, h⟩ | ⟨n, t', -, rfl, h, hp, ht'⟩ <;>
    simp only [h]
  · split_ifs with hk'
    · exact (search_eq_some_iff key ht).mpr ⟨he, hk.trans hk'.symm⟩
    · rfl
  · split_ifs with hk'
    · cases hs : search key k' t with
      | none => rfl
      | some e => exact absurd ((search_spec key hs).2.trans hk') (hn e (search_spec key hs).1)
    · rfl
  · split_ifs with hk'
    · exact (search_eq_some_iff key ht').mpr
        ⟨hp.mem_iff.mpr (List.mem_cons_self _ _), (hmk n rfl).trans hk'.symm⟩
    · refine search_congr key ht' ht fun e he => ?_
      rw [hp.mem_iff, List.mem_cons, or_iff_right]
      rintro rfl
      exact hk' (he.symm.trans (hmk e rfl))

/-- A lookup returns the entry a search finds, or else the new entry. -/
theorem find_snd {t : Tree α} (ht : Ordered key t) {k : UInt64} {mk : Option α}
    (hmk : ∀ n ∈ mk, key n = k) : (t.find key k mk).2 = (t.search key k).or mk := by
  unfold find
  cases hs : t.search key k with
  | some e => rfl
  | none =>
    cases mk with
    | none => rfl
    | some n =>
      obtain ⟨t', h, -, -⟩ :=
        link_fresh key ht (n := n) (by rw [hmk n rfl]; exact search_eq_none key ht hs)
      simp [h]

/-- A lookup of k and a write through the entry it returns, if any, as find_X and its callers
do: a search for k finds that entry written, other searches are unchanged. -/
theorem search_find_write {t : Tree α} (ht : Ordered key t) {k : UInt64} {mk : Option α}
    (hmk : ∀ n ∈ mk, key n = k) {f : α → α} (hf : ∀ x, key (f x) = key x) (k' : UInt64) :
    (if (t.find key k mk).2.isSome then (t.find key k mk).1.modify key k f
      else (t.find key k mk).1).search key k' =
      if k' = k then ((t.search key k).or mk).map f else t.search key k' := by
  have hs := search_find key ht hmk k'
  rw [find_snd key ht hmk] at hs ⊢
  by_cases hk : k' = k
  · simp only [if_pos hk] at hs ⊢
    split_ifs with h
    · rw [search_modify key hf, if_pos hk, hs]
    · rw [hs, Option.not_isSome_iff_eq_none.mp h]; rfl
  · simp only [if_neg hk] at hs ⊢
    split_ifs
    · rw [search_modify key hf, if_neg hk, hs]
    · exact hs

theorem ordered_find {t : Tree α} (ht : Ordered key t) {k : UInt64} {mk : Option α}
    (hmk : ∀ n ∈ mk, key n = k) : (t.find key k mk).1.Ordered key := by
  rcases find_cases key ht hmk with ⟨e, -, -, h⟩ | ⟨-, -, h⟩ | ⟨n, t', -, -, h, -, h'⟩ <;> rw [h]
  exacts [ht, ht, h']

end Tree

/-- What a well-formed store guarantees: keys strictly increase in order, a lookup finds every
present entry, and a fresh key is linked in as exactly one new entry. -/
def StoreFacts {α : Type} (key : α → UInt64) (t : Tree α) : Prop :=
  t.Ordered key ∧ (∀ e ∈ t.toList, ∀ mk, t.find key (key e) mk = (t, some e)) ∧
    ∀ n, (∀ x ∈ t.toList, key x ≠ key n) →
      ∃ t', t.find key (key n) (some n) = (t', some n) ∧ t'.toList.Perm (n :: t.toList)

namespace StoreOp
variable {α : Type} (key : α → UInt64)

theorem apply_ordered {op : StoreOp α} (hop : op.KeepsKeys key) {t : Tree α}
    (ht : t.Ordered key) : (op.apply key t).Ordered key := by
  cases op with
  | find k mk => exact Tree.ordered_find key ht hop
  | write k f => exact Tree.ordered_modify key ht k hop
  | sweep f => exact Tree.ordered_map key ht hop
  | removeDead p => exact Tree.ordered_removeDead key ht p
  | erase p =>
    simp only [apply]
    cases he : t.eraseFirst p with
    | none => exact ht
    | some t' =>
      have h := Tree.eraseFirst_toList p t
      rw [he] at h
      split_ifs at h
      · exact Tree.ordered_of_sublist key
          (by simpa using (Option.some.inj h) ▸ List.eraseP_sublist _) ht
      · cases h

theorem run_ordered (ops : List (StoreOp α)) (hops : ∀ op ∈ ops, op.KeepsKeys key) :
    (run key ops).Ordered key := by
  unfold run
  suffices ∀ t : Tree α, t.Ordered key → (ops.foldl (fun t op => op.apply key t) t).Ordered key from
    this _ (Tree.ordered_nil key)
  induction ops with
  | nil => exact fun _ ht => ht
  | cons op ops ih =>
    intro t ht
    exact ih (fun o ho => hops o (List.mem_cons_of_mem _ ho)) _
      (apply_ordered key (hops op (List.mem_cons_self _ _)) ht)

theorem storeFacts_of_ordered {t : Tree α} (ht : t.Ordered key) : StoreFacts key t :=
  ⟨ht, fun _ he => Tree.find_of_mem key ht he, fun _ hn =>
    let ⟨t', h1, h2, _⟩ := Tree.find_fresh key ht hn
    ⟨t', h1, h2⟩⟩

end StoreOp

/-- A drop_hist as calloc leaves it for addr: counters zero, alive, no flows. -/
def DropHist.Fresh (addr : UInt64) (e : DropHist) : Prop :=
  e.addr = addr ∧ e.totalDrops = 0 ∧ e.aging = 0 ∧ e.dead = false ∧ e.buckets = (fun _ => 0) ∧
    e.flb = .empty

/-- A drop_loc as calloc leaves it for addr. -/
def DropLoc.Fresh (addr : UInt64) (e : DropLoc) : Prop :=
  e.addr = addr ∧ e.totalDrops = 0 ∧ e.aging = 0 ∧ e.dead = false

theorem newDroph_fresh (env : Env cap) (cfg : Config) (alloc : Bool) (nsid : UInt32)
    (addr : UInt64) :
    ∀ e ∈ (newDroph env cfg alloc nsid addr).1, e.Fresh addr := by
  intro e he
  simp only [newDroph] at he
  split_ifs at he
  · cases he
  · cases he; exact ⟨rfl, rfl, rfl, rfl, rfl, rfl⟩
  · split at he <;> (cases he; exact ⟨rfl, rfl, rfl, rfl, rfl, rfl⟩)
  · cases he; exact ⟨rfl, rfl, rfl, rfl, rfl, rfl⟩

theorem newDropl_fresh (alloc : Bool) (addr : UInt64) (name : Option String) :
    ∀ e ∈ newDropl alloc addr name, e.Fresh addr := by
  intro e he
  cases alloc
  · cases he
  · cases he; exact ⟨rfl, rfl, rfl, rfl⟩

/-- new_droph succeeds when its calloc does. -/
theorem newDroph_some (env : Env cap) (cfg : Config) (nsid : UInt32) (addr : UInt64) :
    ∃ e, (newDroph env cfg true nsid addr).1 = some e ∧ e.Fresh addr := by
  have hs : ((newDroph env cfg true nsid addr).1).isSome := by
    simp only [newDroph, Bool.not_true, Bool.false_eq_true, if_false]
    split_ifs <;> (try split) <;> rfl
  obtain ⟨e, he⟩ := Option.isSome_iff_exists.mp hs
  exact ⟨e, he, newDroph_fresh env cfg true nsid addr e he⟩

/-- find_droph is the store lookup, linking new_droph's entry when asked to create. -/
theorem findDroph_find (env : Env cap) (cfg : Config) (alloc create : Bool) (addr : UInt64)
    (s : State) :
    ((findDroph env cfg alloc create addr s).1.allDropHists,
        (findDroph env cfg alloc create addr s).2) =
      s.allDropHists.find DropHist.addr addr
          (if create then (newDroph env cfg alloc s.nsid addr).1 else none) := by
  unfold findDroph Tree.find
  cases s.allDropHists.search DropHist.addr addr <;> cases create <;> rfl

/-- find_droph touches the histogram store and nsid only. -/
theorem findDroph_state (env : Env cap) (cfg : Config) (alloc create : Bool) (addr : UInt64)
    (s : State) :
    (findDroph env cfg alloc create addr s).1 = { s with
      allDropHists := (findDroph env cfg alloc create addr s).1.allDropHists
      nsid := (findDroph env cfg alloc create addr s).1.nsid } := by
  unfold findDroph
  split
  · rfl
  · split
    · rfl
    · rfl

/-- find_droph of a present addr returns its entry and leaves the state as it is. -/
theorem findDroph_of_mem (env : Env cap) (cfg : Config) (alloc create : Bool) {s : State}
    (ht : s.allDropHists.Ordered DropHist.addr) {e : DropHist} (he : e ∈ s.allDropHists.toList) :
    findDroph env cfg alloc create e.addr s = (s, some e) := by
  simp only [findDroph, Tree.search_of_mem DropHist.addr ht he]

/-- find_droph creating on an absent addr, calloc succeeding: a fresh entry is linked as exactly
one more, and nothing else but nsid changes. -/
theorem findDroph_fresh (env : Env cap) (cfg : Config) (addr : UInt64) {s : State}
    (ht : s.allDropHists.Ordered DropHist.addr) (hn : ∀ x ∈ s.allDropHists.toList, x.addr ≠ addr) :
    ∃ n s', findDroph env cfg true true addr s = (s', some n) ∧ n.Fresh addr ∧
      s'.allDropHists.toList.Perm (n :: s.allDropHists.toList) ∧
      s'.allDropHists.Ordered DropHist.addr ∧
      s' = { s with allDropHists := s'.allDropHists, nsid := s'.nsid } := by
  obtain ⟨n, hmk, hf⟩ := newDroph_some env cfg s.nsid addr
  obtain ⟨t', hfind, hp, ho⟩ := Tree.find_fresh DropHist.addr ht (n := n) (hf.1 ▸ hn)
  rw [hf.1] at hfind
  have h := findDroph_find env cfg true true addr s
  rw [if_pos rfl, hmk, hfind, Prod.mk.injEq] at h
  exact ⟨n, _, Prod.ext rfl h.2, hf, h.1 ▸ hp, h.1 ▸ ho, findDroph_state env cfg true true addr s⟩

theorem findDropl_of_mem (alloc : Bool) (name : Option String) {t : Tree DropLoc}
    (ht : t.Ordered DropLoc.addr) {e : DropLoc} (he : e ∈ t.toList) :
    findDropl alloc e.addr name t = (t, some e) :=
  Tree.find_of_mem DropLoc.addr ht he _

/-- find_dropl on an absent addr, calloc succeeding, links a fresh entry as exactly one more. -/
theorem findDropl_fresh (addr : UInt64) (name : Option String) {t : Tree DropLoc}
    (ht : t.Ordered DropLoc.addr) (hn : ∀ x ∈ t.toList, x.addr ≠ addr) :
    ∃ n t', findDropl true addr name t = (t', some n) ∧ n.Fresh addr ∧
      t'.toList.Perm (n :: t.toList) ∧ t'.Ordered DropLoc.addr :=
  let ⟨t', h⟩ :=
    Tree.find_fresh DropLoc.addr ht (n := ⟨addr, (name.getD "").take 63, 0, 0, false⟩) hn
  ⟨_, t', h.1, ⟨rfl, rfl, rfl, rfl⟩, h.2⟩

/-- Both rb-tree stores as search trees: every run of lookups, writes, sweeps and removals keeps
the keys ascending; find_droph and find_dropl return a present entry and leave the store as it
is, and, creating on an absent addr with calloc succeeding, link a fresh entry as one more. -/
theorem find_stores_ordered :
    (∀ ops : List (StoreOp DropHist), (∀ op ∈ ops, op.KeepsKeys DropHist.addr) →
      StoreFacts DropHist.addr (StoreOp.run DropHist.addr ops)) ∧
    (∀ ops : List (StoreOp DropLoc), (∀ op ∈ ops, op.KeepsKeys DropLoc.addr) →
      StoreFacts DropLoc.addr (StoreOp.run DropLoc.addr ops)) ∧
    (∀ (env : Env cap) cfg alloc create (s : State), s.allDropHists.Ordered DropHist.addr →
      ∀ e ∈ s.allDropHists.toList, findDroph env cfg alloc create e.addr s = (s, some e)) ∧
    (∀ (env : Env cap) cfg addr (s : State), s.allDropHists.Ordered DropHist.addr →
      (∀ x ∈ s.allDropHists.toList, x.addr ≠ addr) →
      ∃ n s', findDroph env cfg true true addr s = (s', some n) ∧ n.Fresh addr ∧
        s'.allDropHists.toList.Perm (n :: s.allDropHists.toList) ∧
        s'.allDropHists.Ordered DropHist.addr ∧
        s' = { s with allDropHists := s'.allDropHists, nsid := s'.nsid }) ∧
    (∀ alloc name (t : Tree DropLoc), t.Ordered DropLoc.addr →
      ∀ e ∈ t.toList, findDropl alloc e.addr name t = (t, some e)) ∧
    (∀ addr name (t : Tree DropLoc), t.Ordered DropLoc.addr → (∀ x ∈ t.toList, x.addr ≠ addr) →
      ∃ n t', findDropl true addr name t = (t', some n) ∧ n.Fresh addr ∧
        t'.toList.Perm (n :: t.toList) ∧ t'.Ordered DropLoc.addr) :=
  ⟨fun ops h => StoreOp.storeFacts_of_ordered _ (StoreOp.run_ordered _ ops h),
    fun ops h => StoreOp.storeFacts_of_ordered _ (StoreOp.run_ordered _ ops h),
    fun env cfg alloc create _ ht _ he => findDroph_of_mem env cfg alloc create ht he,
    fun env cfg addr _ ht hn => findDroph_fresh env cfg addr ht hn,
    fun alloc name _ ht _ he => findDropl_of_mem alloc name ht he,
    fun addr name _ ht hn => findDropl_fresh addr name ht hn⟩

end PktDrop
