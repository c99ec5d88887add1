import PktDrop.Basic
import Mathlib.Data.List.Lex
import Mathlib.Tactic.Ring

/-! The grouping key of do_histogram. The key is the unsigned long addr, written byte by byte
through __u8 *p = (__u8 *)&addr and read back through the dmac[8] view of the same union; the
target is little-endian, so byte i has weight 256^i. -/
namespace PktDrop

/-- The value of bytes p[0], p[1], ... of an integer on a little-endian target. -/
def leValue : List UInt8 → ℕ
  | [] => 0
  | b :: bs => b.toNat + 256 * leValue bs

/-- The unsigned long whose bytes are bs. -/
def ofBytes (bs : List UInt8) : UInt64 := UInt64.ofNat (leValue bs)

/-- The n low bytes of a value, lowest first. -/
def leBytes : ℕ → ℕ → List UInt8
  | 0, _ => []
  | n+1, v => UInt8.ofNat v :: leBytes n (v / 256)

/-- droph->dmac, the byte view of droph->addr. -/
def addrBytes (addr : UInt64) : List UInt8 := leBytes 8 addr.toNat

/-- for (i = 0; i < 6; ++i) p[i] = mac[5-i]; on addr = 0. -/
def macBytes (m : Mac) : List UInt8 :=
  List.ofFn fun i : Fin 8 => if h : i.val < 6 then m.get ⟨5 - i.val, by omega⟩ else 0

/-- memcpy(&addr, &v, 4) on addr = 0: the four bytes of v as stored. -/
def ip4Bytes (v : UInt32) : List UInt8 := leBytes 4 v.toNat ++ [0, 0, 0, 0]

/-- The addr do_histogram passes to find_droph, or none where it returns before that
(HIST_BY_NONE, and a non-IPv4 packet in dip or sip mode). -/
def histKey (mode : HistBy) (fl : Flow) (netns : UInt64) : Option UInt64 :=
  match mode with
  | .netns => some netns
  | .flow | .dmac => some (ofBytes (macBytes fl.dmac))
  | .smac => some (ofBytes (macBytes fl.smac))
  | .dip => if fl.proto ≠ ethPIp then none else some (ofBytes (ip4Bytes fl.ip4.daddr))
  | .sip => if fl.proto ≠ ethPIp then none else some (ofBytes (ip4Bytes fl.ip4.saddr))
  | .none => none

/-- The value of a byte string read most significant byte first. -/
def beValue : List UInt8 → ℕ
  | [] => 0
  | b :: bs => b.toNat * 256 ^ bs.length + beValue bs

theorem leValue_append (xs ys : List UInt8) :
    leValue (xs ++ ys) = leValue xs + 256 ^ xs.length * leValue ys := by
  induction xs with
  | nil => simp [leValue]
  | cons x xs ih => rw [List.cons_append, leValue, leValue, ih, List.length_cons, pow_succ]; ring

theorem leValue_reverse (bs : List UInt8) : leValue bs.reverse = beValue bs := by
  induction bs with
  | nil => rfl
  | cons b bs ih =>
    simp [leValue_append, ih, beValue, leValue]
    ring

theorem beValue_lt (bs : List UInt8) : beValue bs < 256 ^ bs.length := by
  induction bs with
  | nil => simp [beValue]
  | cons b bs ih =>
    have hb : b.toNat < 256 := b.toNat_lt_size
    calc beValue (b :: bs) = b.toNat * 256 ^ bs.length + beValue bs := rfl
      _ < (b.toNat + 1) * 256 ^ bs.length := by rw [Nat.succ_mul]; omega
      _ ≤ 256 * 256 ^ bs.length := Nat.mul_le_mul_right _ hb
      _ = 256 ^ (b :: bs).length := by simp [pow_succ, Nat.mul_comm]

theorem toNat_uint8_ofNat (n : ℕ) : (UInt8.ofNat n).toNat = n % 256 := rfl

theorem leValue_leBytes (n v : ℕ) : leValue (leBytes n v) = v % 256 ^ n := by
  induction n generalizing v with
  | zero => simp [leBytes, leValue, Nat.mod_one]
  | succ n ih => rw [leBytes, leValue, ih, toNat_uint8_ofNat, pow_succ', Nat.mod_mul]

theorem leBytes_leValue (bs : List UInt8) : leBytes bs.length (leValue bs) = bs := by
  induction bs with
  | nil => rfl
  | cons b bs ih =>
    have hb : b.toNat < 256 := b.toNat_lt_size
    simp only [List.length_cons, leBytes, leValue]
    rw [show (b.toNat + 256 * leValue bs) / 256 = leValue bs by omega, ih]
    congr 1
    apply UInt8.toNat.inj
    rw [toNat_uint8_ofNat]
    omega

theorem macBytes_eq (m : Mac) : macBytes m = m.toList.reverse ++ [0, 0] := by
  obtain ⟨l, hl⟩ := m
  match l, hl with
  | [a, b, c, d, e, f], _ => rfl

/-- The MAC key is the MAC read as a 48-bit big-endian number. -/
theorem toNat_ofBytes_macBytes (m : Mac) : (ofBytes (macBytes m)).toNat = beValue m.toList := by
  have hv : leValue (macBytes m) = beValue m.toList := by
    rw [macBytes_eq, leValue_append, leValue_reverse]; simp [leValue]
  have hlt : beValue m.toList < UInt64.size :=
    (beValue_lt m.toList).trans_le (by rw [Mathlib.Vector.toList_length]; decide)
  rw [ofBytes, hv, UInt64.toNat_ofNat_of_lt hlt]

/-- The IPv4 key is the address as a 32-bit number. -/
theorem toNat_ofBytes_ip4Bytes (v : UInt32) : (ofBytes (ip4Bytes v)).toNat = v.toNat := by
  have hv : leValue (ip4Bytes v) = v.toNat := by
    rw [ip4Bytes, leValue_append, leValue_leBytes]
    simp [leValue, Nat.mod_eq_of_lt v.toNat_lt_size]
  have hlt : v.toNat < UInt64.size := v.toNat_lt_size.trans (by decide)
  rw [ofBytes, hv, UInt64.toNat_ofNat_of_lt hlt]

theorem beValue_injective {l₁ l₂ : List UInt8} (h : l₁.length = l₂.length)
    (hv : beValue l₁ = beValue l₂) : l₁ = l₂ := by
  have h₁ := leBytes_leValue l₁.reverse
  have h₂ := leBytes_leValue l₂.reverse
  rw [leValue_reverse, List.length_reverse] at h₁ h₂
  rw [← List.reverse_reverse l₁, ← h₁, hv, h, h₂, List.reverse_reverse]

theorem lt_digit_iff {a b x y N : ℕ} (hx : x < N) (hy : y < N) :
    a * N + x < b * N + y ↔ a < b ∨ (a = b ∧ x < y) := by
  constructor
  · intro h
    rcases lt_trichotomy a b with hab | rfl | hab
    · exact .inl hab
    · exact .inr ⟨rfl, by omega⟩
    · have := Nat.mul_le_mul_right N (Nat.succ_le_of_lt hab)
      rw [Nat.succ_mul] at this
      omega
  · rintro (hab | ⟨rfl, hxy⟩)
    · have := Nat.mul_le_mul_right N (Nat.succ_le_of_lt hab)
      rw [Nat.succ_mul] at this
      omega
    · omega

theorem lex_cons_iff {a b : UInt8} {l₁ l₂ : List UInt8} :
    List.Lex (· < ·) (a :: l₁) (b :: l₂) ↔ a < b ∨ (a = b ∧ List.Lex (· < ·) l₁ l₂) := by
  constructor
  · intro h
    cases h with
    | cons h => exact .inr ⟨rfl, h⟩
    | rel h => exact .inl h
  · rintro (h | ⟨rfl, h⟩)
    exacts [.rel h, .cons h]

/-- Big-endian values of equal-length byte strings compare lexicographically. -/
theorem beValue_lt_iff {l₁ l₂ : List UInt8} (h : l₁.length = l₂.length) :
    beValue l₁ < beValue l₂ ↔ List.Lex (· < ·) l₁ l₂ := by
  induction l₁ generalizing l₂ with
  | nil =>
    cases l₂ with
    | nil => simp [beValue]
    | cons => cases h
  | cons a as ih =>
    cases l₂ with
    | nil => cases h
    | cons b bs =>
      simp only [List.length_cons, Nat.succ.injEq] at h
      rw [beValue, beValue, h, lt_digit_iff (h ▸ beValue_lt as) (beValue_lt bs), lex_cons_iff,
        ← ih h]
      constructor
      · rintro (hab | ⟨hab, hxy⟩)
        exacts [.inl hab, .inr ⟨UInt8.toNat.inj hab, hxy⟩]
      · rintro (hab | ⟨rfl, hxy⟩)
        exacts [.inl hab, .inr ⟨rfl, hxy⟩]

theorem toNat_ofBytes {bs : List UInt8} (h : bs.length = 8) : (ofBytes bs).toNat = leValue bs :=
  UInt64.toNat_ofNat_of_lt ((leValue_lt bs).trans_le (by rw [h]; decide))
where
  leValue_lt (bs : List UInt8) : leValue bs < 256 ^ bs.length := by
    have := beValue_lt bs.reverse
    rwa [← leValue_reverse, List.reverse_reverse, List.length_reverse] at this

/-- Reading the dmac[8] view of an addr written byte by byte gives the bytes back. -/
theorem addrBytes_ofBytes {bs : List UInt8} (h : bs.length = 8) : addrBytes (ofBytes bs) = bs := by
  rw [addrBytes, toNat_ofBytes h, ← h, leBytes_leValue]

theorem macBytes_length (m : Mac) : (macBytes m).length = 8 := by simp [macBytes]

theorem leBytes_length (n v : ℕ) : (leBytes n v).length = n := by
  induction n generalizing v with
  | zero => rfl
  | succ n ih => simp [leBytes, ih]

theorem ip4Bytes_length (v : UInt32) : (ip4Bytes v).length = 8 := by
  simp [ip4Bytes, leBytes_length]

theorem ofBytes_macBytes_inj {m₁ m₂ : Mac} :
    ofBytes (macBytes m₁) = ofBytes (macBytes m₂) ↔ m₁ = m₂ := by
  refine ⟨fun h => Mathlib.Vector.eq _ _ (beValue_injective (by simp) ?_), fun h => h ▸ rfl⟩
  rw [← toNat_ofBytes_macBytes, ← toNat_ofBytes_macBytes, h]

theorem ofBytes_ip4Bytes_inj {v₁ v₂ : UInt32} :
    ofBytes (ip4Bytes v₁) = ofBytes (ip4Bytes v₂) ↔ v₁ = v₂ := by
  refine ⟨fun h => UInt32.toNat.inj ?_, fun h => h ▸ rfl⟩
  rw [← toNat_ofBytes_ip4Bytes, ← toNat_ofBytes_ip4Bytes, h]

/-- The field each grouping mode is documented to group by: two samples share a group iff
these agree. -/
def SameGroup (mode : HistBy) (fl₁ : Flow) (n₁ : UInt64) (fl₂ : Flow) (n₂ : UInt64) : Prop :=
  match mode with
  | .netns => n₁ = n₂
  | .dmac | .flow => fl₁.dmac = fl₂.dmac
  | .smac => fl₁.smac = fl₂.smac
  | .dip => fl₁.ip4.daddr = fl₂.ip4.daddr
  | .sip => fl₁.ip4.saddr = fl₂.ip4.saddr
  | .none => True

/-- The row label show_hist_buckets reads back gives the grouping field: the first four bytes
of addr in dip and sip mode (inet_ntop), dmac[0..5] reversed in the MAC modes (print_mac). -/
def LabelReads (mode : HistBy) (fl : Flow) (k : UInt64) : Prop :=
  match mode with
  | .dmac => ((addrBytes k).take 6).reverse = fl.dmac.toList
  | .smac => ((addrBytes k).take 6).reverse = fl.smac.toList
  | .dip => (addrBytes k).take 4 = leBytes 4 fl.ip4.daddr.toNat
  | .sip => (addrBytes k).take 4 = leBytes 4 fl.ip4.saddr.toNat
  | _ => True

/-- The MAC a key is built from, in the modes that key by MAC. -/
def keyMac (mode : HistBy) (fl : Flow) : Option Mac :=
  match mode with
  | .dmac | .flow => some fl.dmac
  | .smac => some fl.smac
  | _ => none

theorem macKey_lt_iff (m₁ m₂ : Mac) :
    ofBytes (macBytes m₁) < ofBytes (macBytes m₂) ↔ List.Lex (· < ·) m₁.toList m₂.toList := by
  show (ofBytes (macBytes m₁)).toNat < (ofBytes (macBytes m₂)).toNat ↔ _
  rw [toNat_ofBytes_macBytes, toNat_ofBytes_macBytes, beValue_lt_iff (by simp)]

theorem macLabel (m : Mac) : ((addrBytes (ofBytes (macBytes m))).take 6).reverse = m.toList := by
  rw [addrBytes_ofBytes (macBytes_length m), macBytes_eq, List.take_append_of_le_length (by simp),
    List.take_of_length_le (by simp), List.reverse_reverse]

theorem ip4Label (v : UInt32) : (addrBytes (ofBytes (ip4Bytes v))).take 4 = leBytes 4 v.toNat := by
  rw [addrBytes_ofBytes (ip4Bytes_length v), ip4Bytes, List.take_append_of_le_length]
  · exact List.take_of_length_le (leBytes_length 4 _).le
  · exact (leBytes_length 4 _).ge

/-- Keys group samples exactly by the mode's field, the row label reads that field back, and
in the MAC modes the key order is the lexicographic order of the MACs. -/
theorem histKey_grouping (mode : HistBy) {fl₁ fl₂ : Flow} {n₁ n₂ k₁ k₂ : UInt64}
    (h₁ : histKey mode fl₁ n₁ = some k₁) (h₂ : histKey mode fl₂ n₂ = some k₂) :
    (k₁ = k₂ ↔ SameGroup mode fl₁ n₁ fl₂ n₂) ∧ LabelReads mode fl₁ k₁ ∧
      ∀ m₁ m₂, keyMac mode fl₁ = some m₁ → keyMac mode fl₂ = some m₂ →
        (k₁ < k₂ ↔ List.Lex (· < ·) m₁.toList m₂.toList) := by
  have hmac : ∀ m₁ m₂ : Mac, ∀ {k₁ k₂}, ofBytes (macBytes m₁) = k₁ → ofBytes (macBytes m₂) = k₂ →
      (k₁ = k₂ ↔ m₁ = m₂) ∧ (k₁ < k₂ ↔ List.Lex (· < ·) m₁.toList m₂.toList) := by
    rintro m₁ m₂ _ _ rfl rfl; exact ⟨ofBytes_macBytes_inj, macKey_lt_iff _ _⟩
  cases mode <;> simp only [histKey, Option.some.injEq] at h₁ h₂
  · cases h₁
  · subst h₁ h₂; simp [SameGroup, LabelReads, keyMac]
  · refine ⟨(hmac _ _ h₁ h₂).1, h₁ ▸ macLabel _, ?_⟩
    rintro m₁ m₂ ⟨⟩ ⟨⟩; exact (hmac _ _ h₁ h₂).2
  · refine ⟨(hmac _ _ h₁ h₂).1, h₁ ▸ macLabel _, ?_⟩
    rintro m₁ m₂ ⟨⟩ ⟨⟩; exact (hmac _ _ h₁ h₂).2
  · split_ifs at h₁ h₂
    obtain ⟨rfl, rfl⟩ := And.intro (Option.some.inj h₁) (Option.some.inj h₂)
    exact ⟨ofBytes_ip4Bytes_inj, ip4Label _, by simp [keyMac]⟩
  · split_ifs at h₁ h₂
    obtain ⟨rfl, rfl⟩ := And.intro (Option.some.inj h₁) (Option.some.inj h₂)
    exact ⟨ofBytes_ip4Bytes_inj, ip4Label _, by simp [keyMac]⟩
  · refine ⟨(hmac _ _ h₁ h₂).1, trivial, ?_⟩
    rintro m₁ m₂ ⟨⟩ ⟨⟩; exact (hmac _ _ h₁ h₂).2

theorem histKey_grouping_dmac :
    let fl₁ : Flow := { Flow.zero with dmac := ⟨[0, 0x1b, 0x21, 0, 0, 1], rfl⟩ }
    let fl₂ : Flow := { Flow.zero with dmac := ⟨[0, 0x1b, 0x21, 0, 1, 0], rfl⟩ }
    histKey .dmac fl₁ 0 = some (ofBytes (macBytes fl₁.dmac)) ∧
      histKey .dmac fl₂ 0 = some (ofBytes (macBytes fl₂.dmac)) ∧
      ((ofBytes (macBytes fl₁.dmac) = ofBytes (macBytes fl₂.dmac) ↔ SameGroup .dmac fl₁ 0 fl₂ 0) ∧
        LabelReads .dmac fl₁ (ofBytes (macBytes fl₁.dmac)) ∧
        ∀ m₁ m₂, keyMac .dmac fl₁ = some m₁ → keyMac .dmac fl₂ = some m₂ →
          (ofBytes (macBytes fl₁.dmac) < ofBytes (macBytes fl₂.dmac) ↔
            List.Lex (· < ·) m₁.toList m₂.toList)) :=
  ⟨rfl, rfl, histKey_grouping .dmac rfl rfl⟩

end PktDrop
