import PktDrop.Basic
import Mathlib.Data.List.Sort
import Mathlib.Algebra.Order.Ring.Nat

/-! The rb-trees all_drop_hists and all_drop_loc as binary search trees on addr: rebalancing
keeps the in-order sequence and is not modelled; each operation is described by its toList. -/
namespace PktDrop

/-- struct rb_root with its nodes, each holding one entry. -/
inductive Tree (α : Type) where
  | nil
  | node (l : Tree α) (e : α) (r : Tree α)
  deriving DecidableEq, Repr

namespace Tree
variable {α : Type} (key : α → UInt64)

/-- The entries in the order rb_first / rb_next visit them. -/
def toList : Tree α → List α
  | nil => []
  | node l e r => l.toList ++ e :: r.toList

/-- The search loop of find_droph and find_dropl. -/
def search (k : UInt64) : Tree α → Option α
  | nil => none
  | node l e r => if k < key e then search k l else if k > key e then search k r else some e

/-- The descent of insert_droph and insert_dropl; none is -EEXIST. -/
def insert (n : α) : Tree α → Option (Tree α)
  | nil => some (node nil n nil)
  | node l e r =>
    if key n < key e then (insert n l).map (node · e r)
    else if key n > key e then (insert n r).map (node l e ·)
    else none

/-- A write through the pointer the search for k returns. -/
def modify (k : UInt64) (f : α → α) : Tree α → Tree α
  | nil => nil
  | node l e r =>
    if k < key e then node (modify k f l) e r
    else if k > key e then node l e (modify k f r)
    else node l (f e) r

/-- A traversal that updates every entry in place. -/
def map (f : α → α) : Tree α → Tree α
  | nil => nil
  | node l e r => node (map f l) (f e) (map f r)

/-- The subtree rb_erase leaves in place of a removed node, up to rebalancing. -/
def join : Tree α → Tree α → Tree α
  | nil, r => r
  | node a x b, r => node a x (join b r)

/-- One scan of a removal loop: from rb_first, erase the first entry satisfying p;
none when the scan reaches the end. -/
def eraseFirst (p : α → Bool) : Tree α → Option (Tree α)
  | nil => none
  | node l e r =>
    match eraseFirst p l with
    | some l' => some (node l' e r)
    | none => if p e then some (join l r) else (eraseFirst p r).map (node l e ·)

/-- The loop "restart: scan; on a hit remove it and goto restart", for at most n scans. -/
def removeAll (p : α → Bool) : ℕ → Tree α → Tree α
  | 0, t => t
  | n+1, t =>
    match eraseFirst p t with
    | none => t
    | some t' => removeAll p n t'

/-- The removal loop, given one scan per entry it removes. -/
def removeDead (p : α → Bool) (t : Tree α) : Tree α :=
  removeAll p (t.toList.countP p) t

/-- One scan of a removal loop with the entry it stops at: the first entry from rb_first
satisfying p, and the tree once it is erased; none when the scan reaches the end. -/
def scanErase (p : α → Bool) (t : Tree α) : Option (α × Tree α) :=
  (t.toList.find? p).bind fun e => (eraseFirst p t).map (e, ·)

/-- The loop "restart: scan from rb_first; at an entry satisfying p, remove it (releasing rel
of it) and goto restart", given n scans: the tree it leaves and what it released, in order;
none when the n scans run out before one reaches the end. -/
def restartLoop {β : Type} (p : α → Bool) (rel : α → List β) : ℕ → Tree α → Option (Tree α × List β)
  | 0, _ => none
  | n + 1, t =>
    match scanErase p t with
    | none => some (t, [])
    | some (e, t') => (restartLoop p rel n t').map fun r => (r.1, rel e ++ r.2)

/-- The search-tree invariant: the in-order keys increase strictly. -/
def Ordered (t : Tree α) : Prop := t.toList.Pairwise (fun a b => key a < key b)

@[simp] theorem toList_nil : (nil : Tree α).toList = [] := rfl
@[simp] theorem toList_node (l r : Tree α) (e : α) :
    (node l e r).toList = l.toList ++ e :: r.toList := rfl

@[simp] theorem toList_map (f : α → α) (t : Tree α) : (t.map f).toList = t.toList.map f := by
  induction t with
  | nil => rfl
  | node l e r ihl ihr => simp [map, ihl, ihr]

@[simp] theorem toList_join (l r : Tree α) : (join l r).toList = l.toList ++ r.toList := by
  induction l with
  | nil => rfl
  | node a x b _ ihb => simp [join, ihb]

theorem ordered_nil : Ordered key (nil : Tree α) := List.Pairwise.nil

theorem ordered_node {l r : Tree α} {e : α} :
    Ordered key (node l e r) ↔ Ordered key l ∧ Ordered key r ∧
      (∀ x ∈ l.toList, key x < key e) ∧ (∀ y ∈ r.toList, key e < key y) := by
  simp only [Ordered, toList_node, List.pairwise_append, List.pairwise_cons, List.mem_cons]
  constructor
  · rintro ⟨hl, ⟨hr1, hr2⟩, hx⟩
    exact ⟨hl, hr2, fun x hx' => hx x hx' e (.inl rfl), hr1⟩
  · rintro ⟨hl, hr, hx, hy⟩
    refine ⟨hl, ⟨hy, hr⟩, fun x hx' y hy' => ?_⟩
    rcases hy' with rfl | hy'
    · exact hx x hx'
    · exact (hx x hx').trans (hy y hy')

/-- The search only returns an entry with the key it looks for. -/
theorem search_spec {k : UInt64} {t : Tree α} {e : α} (h : search key k t = some e) :
    e ∈ t.toList ∧ key e = k := by
  induction t with
  | nil => cases h
  | node l x r ihl ihr =>
    simp only [search] at h
    split_ifs at h with h1 h2
    · exact ⟨by simp [(ihl h).1], (ihl h).2⟩
    · exact ⟨by simp [(ihr h).1], (ihr h).2⟩
    · cases h
      exact ⟨by simp, le_antisymm (not_lt.mp h1) (not_lt.mp h2)⟩

/-- In an ordered tree the search finds every entry with the key it looks for. -/
theorem search_of_mem {t : Tree α} (ht : Ordered key t) {e : α} (he : e ∈ t.toList) :
    search key (key e) t = some e := by
  induction t with
  | nil => cases he
  | node l x r ihl ihr =>
    obtain ⟨hl, hr, hlx, hxr⟩ := (ordered_node key).mp ht
    simp only [toList_node, List.mem_append, List.mem_cons] at he
    rcases he with he | rfl | he
    · simp [search, hlx e he, ihl hl he]
    · simp [search]
    · have := hxr e he
      simp [search, this, not_lt.mpr this.le, ihr hr he]

theorem search_eq_none {t : Tree α} (ht : Ordered key t) {k : UInt64}
    (h : search key k t = none) : ∀ x ∈ t.toList, key x ≠ k := by
  rintro x hx rfl
  simp [search_of_mem key ht hx] at h

theorem search_of_not_mem {t : Tree α} {k : UInt64} (hn : ∀ x ∈ t.toList, key x ≠ k) :
    search key k t = none :=
  Option.eq_none_iff_forall_not_mem.mpr fun e he =>
    hn e (search_spec key he).1 (search_spec key he).2

theorem search_eq_some_iff {t : Tree α} (ht : Ordered key t) {k : UInt64} {e : α} :
    search key k t = some e ↔ e ∈ t.toList ∧ key e = k :=
  ⟨search_spec key, fun ⟨h1, h2⟩ => h2 ▸ search_of_mem key ht h1⟩

/-- The entries with key k are what the search for k finds. -/
theorem exists_key_iff_search {t : Tree α} (ht : Ordered key t) {k : UInt64} (p : α → Prop) :
    (∃ e ∈ t.toList, key e = k ∧ p e) ↔ ∃ e, search key k t = some e ∧ p e := by
  simp only [search_eq_some_iff key ht, and_assoc]

theorem exists_key_iff_isSome {t : Tree α} (ht : Ordered key t) {k : UInt64} :
    (∃ e ∈ t.toList, key e = k) ↔ (search key k t).isSome := by
  simp only [Option.isSome_iff_exists, search_eq_some_iff key ht]

/-- In search trees, a search depends only on the entries with the key it looks for. -/
theorem search_congr {t t' : Tree α} (ht : Ordered key t) (ht' : Ordered key t') {k : UInt64}
    (h : ∀ e, key e = k → (e ∈ t.toList ↔ e ∈ t'.toList)) : search key k t = search key k t' :=
  Option.ext fun e => by
    rw [Option.mem_def, Option.mem_def, search_eq_some_iff key ht, search_eq_some_iff key ht']
    exact ⟨fun ⟨h1, h2⟩ => ⟨(h e h2).mp h1, h2⟩, fun ⟨h1, h2⟩ => ⟨(h e h2).mpr h1, h2⟩⟩

/-- An update in place that keeps keys changes what each search finds by the update. -/
theorem search_map {f : α → α} (hf : ∀ x, key (f x) = key x) (k : UInt64) (t : Tree α) :
    (t.map f).search key k = (t.search key k).map f := by
  induction t with
  | nil => rfl
  | node l e r ihl ihr =>
    simp only [map, search, hf]
    split_ifs <;> simp [ihl, ihr]

/-- A write through the pointer for k changes what the search for k finds, and no other. -/
theorem search_modify {f : α → α} (hf : ∀ x, key (f x) = key x) (k k' : UInt64) (t : Tree α) :
    (t.modify key k f).search key k' =
      if k' = k then (t.search key k').map f else t.search key k' := by
  induction t with
  | nil => split_ifs <;> rfl
  | node l e r ihl ihr =>
    rcases lt_trichotomy k (key e) with h | rfl | h <;>
      rcases lt_trichotomy k' (key e) with h' | rfl | h' <;>
      simp [modify, search, hf, ihl, ihr, *, not_lt_of_gt, ne_of_gt, ne_of_lt]
    · rw [if_neg (ne_of_gt (h.trans h'))]
    · rw [if_neg (ne_of_lt (h'.trans h))]

theorem ordered_of_sublist {t t' : Tree α} (h : t'.toList.Sublist t.toList) (ht : Ordered key t) :
    Ordered key t' := ht.sublist h

theorem ordered_of_map {t t' : Tree α} {g : α → α} (hg : ∀ x, key (g x) = key x)
    (h : t'.toList = t.toList.map g) (ht : Ordered key t) : Ordered key t' := by
  simpa [Ordered, h, List.pairwise_map, hg] using ht

/-- Linking a fresh key at the leaf the descent reaches puts it between the smaller and the
larger keys; nothing else moves. -/
theorem insert_fresh {t : Tree α} (ht : Ordered key t) {n : α}
    (hn : ∀ x ∈ t.toList, key x ≠ key n) :
    ∃ t' lo hi, insert key n t = some t' ∧ t.toList = lo ++ hi ∧ t'.toList = lo ++ n :: hi ∧
      (∀ x ∈ lo, key x < key n) ∧ (∀ y ∈ hi, key n < key y) := by
  induction t with
  | nil => exact ⟨_, [], [], rfl, rfl, rfl, by simp, by simp⟩
  | node l e r ihl ihr =>
    obtain ⟨hl, hr, hle, her⟩ := (ordered_node key).mp ht
    rcases lt_or_gt_of_ne (hn e (by simp)) with h | h
    · obtain ⟨t', lo, hi, hi', h1, h2, h3, h4⟩ := ihr hr (fun x hx => hn x (by simp [hx]))
      refine ⟨node l e t', l.toList ++ e :: lo, hi, ?_, by simp [h1], by simp [h2], ?_, h4⟩
      · simp [insert, h, not_lt.mpr h.le, hi']
      · intro x hx
        simp only [List.mem_append, List.mem_cons] at hx
        rcases hx with hx | rfl | hx
        exacts [(hle x hx).trans h, h, h3 x hx]
    · obtain ⟨t', lo, hi, hi', h1, h2, h3, h4⟩ := ihl hl (fun x hx => hn x (by simp [hx]))
      refine ⟨node t' e r, lo, hi ++ e :: r.toList, ?_, by simp [h1], by simp [h2], h3, ?_⟩
      · simp [insert, h, hi']
      · intro y hy
        simp only [List.mem_append, List.mem_cons] at hy
        rcases hy with hy | rfl | hy
        exacts [h4 y hy, h, h.trans (her y hy)]

theorem ordered_insert_split {lo hi : List α} {n : α}
    (h : (lo ++ hi).Pairwise (fun a b => key a < key b))
    (hlo : ∀ x ∈ lo, key x < key n) (hhi : ∀ y ∈ hi, key n < key y) :
    (lo ++ n :: hi).Pairwise (fun a b => key a < key b) := by
  rw [List.pairwise_append] at h ⊢
  refine ⟨h.1, List.pairwise_cons.mpr ⟨hhi, h.2.1⟩, fun x hx y hy => ?_⟩
  rcases List.mem_cons.mp hy with rfl | hy
  exacts [hlo x hx, h.2.2 x hx y hy]

/-- A write through the found pointer changes the one entry with that key. -/
theorem toList_modify {t : Tree α} (ht : Ordered key t) (k : UInt64) (f : α → α) :
    (modify key k f t).toList = t.toList.map (fun x => if key x = k then f x else x) := by
  have hid : ∀ {s : List α}, (∀ x ∈ s, key x ≠ k) →
      s.map (fun x => if key x = k then f x else x) = s := fun hs =>
    (List.map_congr_left fun x hx => if_neg (hs x hx)).trans (List.map_id _)
  induction t with
  | nil => rfl
  | node l e r ihl ihr =>
    obtain ⟨hl, hr, hle, her⟩ := (ordered_node key).mp ht
    simp only [modify]
    split_ifs with h1 h2
    · simp [ihl hl, h1.ne', hid fun y hy => (h1.trans (her y hy)).ne']
    · simp [ihr hr, h2.ne, hid fun x hx => ((hle x hx).trans h2).ne]
    · have he : key e = k := le_antisymm (not_lt.mp h1) (not_lt.mp h2)
      simp [he, hid fun x hx => he ▸ (hle x hx).ne, hid fun y hy => he ▸ (her y hy).ne']

theorem ordered_modify {t : Tree α} (ht : Ordered key t) (k : UInt64) {f : α → α}
    (hf : ∀ x, key (f x) = key x) : Ordered key (modify key k f t) := by
  refine ordered_of_map key (g := fun x => if key x = k then f x else x) (fun x => ?_)
    (toList_modify key ht k f) ht
  dsimp only
  split_ifs
  exacts [hf x, rfl]

theorem ordered_map {t : Tree α} (ht : Ordered key t) {f : α → α} (hf : ∀ x, key (f x) = key x) :
    Ordered key (t.map f) :=
  ordered_of_map key hf (toList_map f t) ht

/-- One scan removes the first entry satisfying p, or reports that there is none. -/
theorem eraseFirst_toList (p : α → Bool) (t : Tree α) :
    (eraseFirst p t).map toList = if t.toList.any p then some (t.toList.eraseP p) else none := by
  induction t with
  | nil => rfl
  | node l e r ihl ihr =>
    simp only [toList_node, List.any_append, List.any_cons, List.eraseP_append]
    cases hl : eraseFirst p l with
    | some l' =>
      by_cases ha : l.toList.any p
      · have hl' : l'.toList = l.toList.eraseP p := by simpa [hl, ha] using ihl
        simp [eraseFirst, hl, ha, hl']
      · simp [hl, ha] at ihl
    | none =>
      by_cases ha : l.toList.any p
      · simp [hl, ha] at ihl
      have hr : ((eraseFirst p r).map (node l e ·)).map toList =
          ((eraseFirst p r).map toList).map (l.toList ++ e :: ·) := by
        simp [Option.map_map, Function.comp_def]
      by_cases hp : p e
      · simp [eraseFirst, hl, ha, hp]
      · have ha' : l.toList.any p = false := by simpa using ha
        rw [show eraseFirst p (node l e r) = (eraseFirst p r).map (node l e ·) by
          simp [eraseFirst, hl, hp], hr, ihr]
        by_cases hb : r.toList.any p <;> simp [ha', hp, hb]

theorem filter_eraseP (p : α → Bool) (s : List α) :
    (s.eraseP p).filter (fun x => !p x) = s.filter (fun x => !p x) := by
  induction s with
  | nil => rfl
  | cons a s ih => by_cases h : p a <;> simp [h, ih]

/-- The entry eraseP removes heads the entries satisfying p. -/
theorem filter_eq_cons_eraseP {p : α → Bool} {s : List α} {e : α} (h : s.find? p = some e) :
    s.filter p = e :: (s.eraseP p).filter p := by
  induction s with
  | nil => cases h
  | cons a s ih =>
    by_cases hp : p a
    · obtain rfl : a = e := by simpa [hp] using h
      simp [hp]
    · simp only [List.find?_cons, hp] at h
      simp [hp, ih h]

theorem filter_not_eq_self {p : α → Bool} {s : List α} (h : s.countP p = 0) :
    s.filter (fun x => !p x) = s :=
  List.filter_eq_self.mpr fun x hx => by simpa using List.countP_eq_zero.mp h x hx

/-- What one scan does: it stops at the first entry satisfying p and erases it, which leaves
one such entry fewer, or it reaches the end when there is none. -/
theorem scanErase_cases (p : α → Bool) (t : Tree α) :
    (∃ e t', scanErase p t = some (e, t') ∧ eraseFirst p t = some t' ∧
      t'.toList = t.toList.eraseP p ∧ t.toList.filter p = e :: t'.toList.filter p ∧
      t'.toList.countP p + 1 = t.toList.countP p) ∨
    (scanErase p t = none ∧ eraseFirst p t = none ∧ t.toList.countP p = 0) := by
  have hs := eraseFirst_toList p t
  by_cases ha : t.toList.any p
  · obtain ⟨e, hf⟩ : ∃ e, t.toList.find? p = some e :=
      Option.isSome_iff_exists.mp (List.find?_isSome.mpr (by simpa using ha))
    obtain ⟨t', he, ht'⟩ : ∃ t', eraseFirst p t = some t' ∧ t'.toList = t.toList.eraseP p := by
      cases he : eraseFirst p t with
      | none => simp [he, ha] at hs
      | some t' => exact ⟨t', rfl, by simpa [he, ha] using hs⟩
    have hfe : t.toList.filter p = e :: t'.toList.filter p := ht' ▸ filter_eq_cons_eraseP hf
    refine .inl ⟨e, t', by simp [scanErase, hf, he], he, ht', hfe, ?_⟩
    simpa [List.countP_eq_length_filter] using (congrArg List.length hfe).symm
  · have he : eraseFirst p t = none := by simpa [ha] using hs
    exact .inr ⟨by simp [scanErase, he], he, List.countP_eq_zero.mpr (by simpa using ha)⟩

/-- A scan that stops stops at an entry satisfying p, and leaves one such entry fewer. -/
theorem scanErase_measure {p : α → Bool} {t t' : Tree α} {e : α}
    (h : scanErase p t = some (e, t')) :
    p e = true ∧ t'.toList.countP p + 1 = t.toList.countP p := by
  rcases scanErase_cases p t with ⟨e', t'', hs, -, -, hf, hc⟩ | ⟨hs, -, -⟩
  · rw [hs] at h
    obtain ⟨rfl, rfl⟩ := Prod.mk.inj_iff.mp (Option.some.inj h)
    have he : e' ∈ t.toList.filter p := by rw [hf]; exact List.mem_cons_self _ _
    exact ⟨(List.mem_filter.mp he).2, hc⟩
  · simp [hs] at h

/-- A scan reaches the end exactly when no entry satisfies p. -/
theorem scanErase_eq_none_iff (p : α → Bool) (t : Tree α) :
    scanErase p t = none ↔ t.toList.countP p = 0 := by
  rcases scanErase_cases p t with ⟨e, t', hs, -, -, -, hc⟩ | ⟨hs, -, hz⟩
  · simp only [hs, reduceCtorEq, false_iff]
    omega
  · simp [hs, hz]

/-- The restart loop ends with exactly the entries not satisfying p, in order. -/
theorem toList_removeAll (p : α → Bool) :
    ∀ (n : ℕ) (t : Tree α), t.toList.countP p ≤ n →
      (removeAll p n t).toList = t.toList.filter (fun x => !p x)
  | 0, t, h => (filter_not_eq_self (Nat.le_zero.mp h)).symm
  | n+1, t, h => by
    rcases scanErase_cases p t with ⟨e, t', -, he, ht', -, hc⟩ | ⟨-, he, hz⟩
    · simp only [removeAll, he]
      rw [toList_removeAll p n t' (by omega), ht', filter_eraseP]
    · simp only [removeAll, he]
      exact (filter_not_eq_self hz).symm

@[simp] theorem toList_removeDead (p : α → Bool) (t : Tree α) :
    (removeDead p t).toList = t.toList.filter (fun x => !p x) :=
  toList_removeAll p _ t le_rfl

theorem ordered_removeDead {t : Tree α} (ht : Ordered key t) (p : α → Bool) :
    Ordered key (removeDead p t) :=
  ordered_of_sublist key (by rw [toList_removeDead]; exact List.filter_sublist _) ht

/-- The removal loop keeps what each search finds unless it is dead. -/
theorem search_removeDead {t : Tree α} (ht : Ordered key t) (p : α → Bool) (k : UInt64) :
    (removeDead p t).search key k = (t.search key k).filter (fun x => !p x) :=
  Option.ext fun e => by
    rw [Option.mem_def, Option.mem_def, Option.filter_eq_some, Option.mem_def,
      search_eq_some_iff key (ordered_removeDead key ht p), search_eq_some_iff key ht,
      toList_removeDead, List.mem_filter]
    exact ⟨fun ⟨⟨h1, h2⟩, h3⟩ => ⟨⟨h1, h3⟩, h2⟩, fun ⟨⟨h1, h3⟩, h2⟩ => ⟨⟨h1, h2⟩, h3⟩⟩

theorem removeDead_of_eraseFirst {p : α → Bool} {t t' : Tree α} (he : eraseFirst p t = some t')
    (hc : t'.toList.countP p + 1 = t.toList.countP p) : removeDead p t = removeDead p t' := by
  rw [removeDead, ← hc]
  simp only [removeAll, he]
  rfl

section Restart
variable {β : Type} (p : α → Bool) (rel : α → List β)

/-- Given more scans than entries satisfying p, the restart loop reaches its exit: it leaves
the tree removeDead computes, and it has released those entries in order. -/
theorem restartLoop_of_lt :
    ∀ (n : ℕ) (t : Tree α), t.toList.countP p < n →
      restartLoop p rel n t = some (removeDead p t, (t.toList.filter p).flatMap rel)
  | 0, _, h => absurd h (Nat.not_lt_zero _)
  | n + 1, t, h => by
    rcases scanErase_cases p t with ⟨e, t', hs, he, -, hf, hc⟩ | ⟨hs, -, hz⟩
    · simp only [restartLoop, hs, restartLoop_of_lt n t' (by omega), removeDead_of_eraseFirst he hc,
        hf, Option.map_some', List.flatMap_cons]
    · have hn : t.toList.filter p = [] := List.eq_nil_of_length_eq_zero <| by
        rwa [← List.countP_eq_length_filter]
      rw [restartLoop, hs, removeDead, hz, hn]
      rfl

/-- With no more scans than entries satisfying p, the scans run out first. -/
theorem restartLoop_of_le :
    ∀ (n : ℕ) (t : Tree α), n ≤ t.toList.countP p → restartLoop p rel n t = none
  | 0, _, _ => rfl
  | n + 1, t, h => by
    rcases scanErase_cases p t with ⟨e, t', hs, -, -, -, hc⟩ | ⟨-, -, hz⟩
    · simp only [restartLoop, hs, restartLoop_of_le n t' (by omega), Option.map_none']
    · omega

/-- The restart loop exits exactly when it is given one scan more than there are entries
satisfying p. -/
theorem restartLoop_isSome_iff (n : ℕ) (t : Tree α) :
    (restartLoop p rel n t).isSome ↔ t.toList.countP p < n := by
  by_cases h : t.toList.countP p < n
  · simp [restartLoop_of_lt p rel n t h, h]
  · simp [restartLoop_of_le p rel n t (by omega), h]

end Restart

end Tree
end PktDrop
