import Mathlib.Algebra.Order.Group.Nat
import Mathlib.Data.List.Basic
import Mathlib.Tactic.Common
import Mathlib.Tactic.Ring

/-!
# Bytes in memory

Numbers as strings of bytes in either order, and memory that is read and written by ranges.

* `ByteOrder.encode`, `decode`: the `w` bytes of a number, and back;
* `ByteOrder.toNetwork`, `ofNetwork`: conversions between the order of a host and big-endian order;
* `Memory.read`, `write`: with a lemma for what was written and a frame lemma for the rest;
* `Field`: a number at a fixed place, with `Memory.get` and `Memory.set`;
* `Region`, `Memory.scatter`, `gather`: bytes written to several ranges and read from them.
-/

/-- The order in which the bytes of a number stand in memory. -/
inductive ByteOrder
  | little
  | big
  deriving DecidableEq, Repr

namespace ByteOrder

variable {w n : ℕ} {o : ByteOrder}

/-- The last `w` digits of `n` to the base 256, the lowest first. -/
def digits : ℕ → ℕ → List UInt8
  | 0, _ => []
  | w + 1, n => UInt8.ofNat n :: digits w (n / 256)

/-- The number with the given digits. -/
def ofDigits : List UInt8 → ℕ
  | [] => 0
  | d :: ds => d.toNat + 256 * ofDigits ds

@[simp] theorem length_digits (w n : ℕ) : (digits w n).length = w := by
  induction w generalizing n with
  | zero => rfl
  | succ w ih => simp [digits, ih]

theorem ofDigits_digits (w n : ℕ) : ofDigits (digits w n) = n % 256 ^ w := by
  induction w generalizing n with
  | zero => simp [digits, ofDigits, Nat.mod_one]
  | succ w ih =>
    have hd : (UInt8.ofNat n).toNat = n % 256 := by simp
    rw [digits, ofDigits, ih, hd, Nat.pow_succ', Nat.mod_mul]

theorem digits_ofDigits (ds : List UInt8) : digits ds.length (ofDigits ds) = ds := by
  induction ds with
  | nil => rfl
  | cons d ds ih =>
    have hlt : d.toNat < 256 := d.toNat_lt
    have hdiv : (d.toNat + 256 * ofDigits ds) / 256 = ofDigits ds := by omega
    have hlow : UInt8.ofNat (d.toNat + 256 * ofDigits ds) = d := by
      apply UInt8.toNat_inj.1
      simp
    rw [List.length_cons, ofDigits, digits, hdiv, ih, hlow]

/-- `w` bytes of `n`. -/
def encode (o : ByteOrder) (w n : ℕ) : List UInt8 :=
  match o with
  | .little => digits w n
  | .big => (digits w n).reverse

/-- The number that bytes stand for. -/
def decode (o : ByteOrder) (bs : List UInt8) : ℕ :=
  match o with
  | .little => ofDigits bs
  | .big => ofDigits bs.reverse

@[simp] theorem length_encode (o : ByteOrder) (w n : ℕ) : (o.encode w n).length = w := by
  cases o <;> simp [encode]

theorem decode_encode (h : n < 256 ^ w) : o.decode (o.encode w n) = n := by
  cases o <;> simp [encode, decode, ofDigits_digits, Nat.mod_eq_of_lt h]

theorem encode_decode {bs : List UInt8} (h : bs.length = w) : o.encode w (o.decode bs) = bs := by
  subst h
  cases o with
  | little => exact digits_ofDigits bs
  | big =>
    have hr := digits_ofDigits bs.reverse
    rw [List.length_reverse] at hr
    rw [encode, decode, hr, List.reverse_reverse]

/-- The number whose bytes on the host are those of `n` in big-endian order. -/
def toNetwork (o : ByteOrder) (w n : ℕ) : ℕ := o.decode (big.encode w n)

/-- The number whose bytes in big-endian order are those of `n` on the host. -/
def ofNetwork (o : ByteOrder) (w n : ℕ) : ℕ := big.decode (o.encode w n)

theorem encode_toNetwork (o : ByteOrder) (w n : ℕ) :
    o.encode w (o.toNetwork w n) = big.encode w n :=
  encode_decode (length_encode big w n)

theorem ofNetwork_toNetwork (h : n < 256 ^ w) : o.ofNetwork w (o.toNetwork w n) = n := by
  rw [ofNetwork, encode_toNetwork, decode_encode h]

theorem ofDigits_lt (ds : List UInt8) : ofDigits ds < 256 ^ ds.length := by
  induction ds with
  | nil => simp [ofDigits]
  | cons d ds ih =>
    have hlt : d.toNat < 256 := d.toNat_lt
    rw [ofDigits, List.length_cons, Nat.pow_succ']
    omega

theorem decode_lt {bs : List UInt8} (h : bs.length = w) : o.decode bs < 256 ^ w := by
  subst h
  cases o with
  | little => exact ofDigits_lt bs
  | big => simpa [decode] using ofDigits_lt bs.reverse

theorem toNetwork_lt (o : ByteOrder) (w n : ℕ) : o.toNetwork w n < 256 ^ w :=
  decode_lt (length_encode big w n)

end ByteOrder

/-- Memory from some address on. -/
abbrev Memory := ℕ → UInt8

namespace Memory

variable {m m' : Memory} {a b n k x : ℕ} {bs : List UInt8}

/-- The `n` bytes at `a`. -/
def read (m : Memory) (a n : ℕ) : List UInt8 := (List.range n).map fun i => m (a + i)

/-- The bytes at `a` are replaced. -/
def write (m : Memory) (a : ℕ) (bs : List UInt8) : Memory := fun x =>
  if a ≤ x then bs[x - a]?.getD (m x) else m x

/-- Memory that holds the given bytes, and zeros after them. -/
def ofBytes (bs : List UInt8) : Memory := fun i => bs[i]?.getD 0

@[simp] theorem length_read (m : Memory) (a n : ℕ) : (m.read a n).length = n := by simp [read]

theorem getElem?_read (h : x < n) : (m.read a n)[x]? = some (m (a + x)) := by simp [read, h]

theorem read_congr (h : ∀ i < n, m (a + i) = m' (b + i)) : m.read a n = m'.read b n :=
  List.map_congr_left fun i hi => h i (List.mem_range.1 hi)

theorem write_of_lt (h : x < a) : m.write a bs x = m x := if_neg (Nat.not_le.2 h)

theorem write_of_le (h : a + bs.length ≤ x) : m.write a bs x = m x := by
  rw [write, if_pos (by omega), List.getElem?_eq_none (by omega)]
  rfl

theorem write_add (h : x < bs.length) : m.write a bs (a + x) = bs[x] := by
  rw [write, if_pos (Nat.le_add_right a x), Nat.add_sub_cancel_left, List.getElem?_eq_getElem h]
  rfl

/-- What was written is read back. -/
theorem read_write_self (m : Memory) (a : ℕ) (bs : List UInt8) :
    (m.write a bs).read a bs.length = bs := by
  refine List.ext_getElem (length_read ..) fun i hi hi' => ?_
  simp [read, write_add hi']

/-- A write leaves the memory before it and after it alone. -/
theorem read_write_of_disjoint (h : b + n ≤ a ∨ a + bs.length ≤ b) :
    (m.write a bs).read b n = m.read b n := by
  refine read_congr fun i hi => ?_
  rcases h with h | h
  · exact write_of_lt (by omega)
  · exact write_of_le (by omega)

theorem take_read (m : Memory) (a : ℕ) (h : k ≤ n) : (m.read a n).take k = m.read a k := by
  rw [read, ← List.map_take, List.take_range, Nat.min_eq_left h, read]

/-- The beginning of a range was written. -/
theorem take_read_write_self (m : Memory) (a : ℕ) (h : bs.length ≤ n) :
    ((m.write a bs).read a n).take bs.length = bs := by
  rw [take_read _ _ h, read_write_self]

/-- What was there already is written. -/
theorem write_read_self (m : Memory) (a n : ℕ) : m.write a (m.read a n) = m := by
  funext x
  by_cases hx : a ≤ x ∧ x < a + n
  · obtain ⟨i, rfl⟩ := Nat.exists_eq_add_of_le hx.1
    rw [write_add (by rw [length_read]; omega)]
    simp [read]
  · rcases Nat.lt_or_ge x a with hlt | hge
    · exact write_of_lt hlt
    · exact write_of_le (by rw [length_read]; omega)

/-- A write to the beginning of a range leaves the range as it was when the bytes were there. -/
theorem read_write_eq_iff (m : Memory) (a : ℕ) (h : bs.length ≤ n) :
    (m.write a bs).read a n = m.read a n ↔ m.read a bs.length = bs := by
  constructor
  · intro heq
    rw [← take_read m a h, ← heq, take_read_write_self m a h]
  · intro heq
    have hwrite := write_read_self m a bs.length
    rw [heq] at hwrite
    rw [hwrite]

/-- Memory is its own contents, as far as they are known. -/
theorem read_ofBytes (h : a + n ≤ k) (rest : List UInt8) :
    (ofBytes (m.read 0 k ++ rest)).read a n = m.read a n := by
  refine read_congr fun i hi => ?_
  have hlt : a + i < k := by omega
  rw [ofBytes, List.getElem?_append_left (by rwa [length_read]), getElem?_read hlt, Nat.zero_add]
  rfl

/-! ### Fields -/

/-- A number of `width` bytes. -/
structure Field where
  offset : ℕ
  width : ℕ
  deriving DecidableEq, Repr

/-- The fields have no byte in common. -/
def Field.Disjoint (f g : Field) : Prop :=
  f.offset + f.width ≤ g.offset ∨ g.offset + g.width ≤ f.offset

instance (f g : Field) : Decidable (f.Disjoint g) :=
  inferInstanceAs (Decidable (f.offset + f.width ≤ g.offset ∨ g.offset + g.width ≤ f.offset))

/-- The number in a field. -/
def get (m : Memory) (o : ByteOrder) (f : Field) : ℕ := o.decode (m.read f.offset f.width)

/-- The field gets the number `n`. -/
def set (m : Memory) (o : ByteOrder) (f : Field) (n : ℕ) : Memory :=
  m.write f.offset (o.encode f.width n)

variable {o : ByteOrder} {f g : Field}

theorem get_set_self (m : Memory) (h : n < 256 ^ f.width) : (m.set o f n).get o f = n := by
  have hread := m.read_write_self f.offset (o.encode f.width n)
  rw [ByteOrder.length_encode] at hread
  rw [get, set, hread, ByteOrder.decode_encode h]

theorem get_set_of_disjoint (m : Memory) (n : ℕ) (h : f.Disjoint g) :
    (m.set o f n).get o g = m.get o g := by
  rw [get, set, read_write_of_disjoint, get]
  rw [ByteOrder.length_encode]
  exact h.symm

/-- A range outside the field is as before. -/
theorem read_set_of_disjoint (m : Memory) (v : ℕ) (h : b + n ≤ f.offset ∨ f.offset + f.width ≤ b) :
    (m.set o f v).read b n = m.read b n := by
  rw [set, read_write_of_disjoint]
  rwa [ByteOrder.length_encode]

theorem get_write_of_disjoint (h : f.offset + f.width ≤ a ∨ a + bs.length ≤ f.offset) :
    (m.write a bs).get o f = m.get o f := by
  rw [get, read_write_of_disjoint h, get]

theorem get_congr (h : m.read f.offset f.width = m'.read f.offset f.width) :
    m.get o f = m'.get o f := by
  rw [get, h, get]

/-! ### Regions -/

/-- `len` bytes from `base` on. -/
structure Region where
  base : ℕ
  len : ℕ
  deriving DecidableEq, Repr

/-- The regions have no byte in common. -/
def Region.Disjoint (r s : Region) : Prop := r.base + r.len ≤ s.base ∨ s.base + s.len ≤ r.base

/-- The bytes are written to the regions one after the other, as far as they fit. -/
def scatter (m : Memory) : List Region → List UInt8 → Memory
  | [], _ => m
  | r :: rs, bs => scatter (m.write r.base (bs.take r.len)) rs (bs.drop r.len)

/-- The contents of the regions one after the other. -/
def gather (m : Memory) (rs : List Region) : List UInt8 := rs.flatMap fun r => m.read r.base r.len

/-- The number of bytes of all regions. -/
def capacity (rs : List Region) : ℕ := (rs.map Region.len).sum

variable {r s : Region} {rs : List Region}

@[simp] theorem gather_cons (m : Memory) (r : Region) (rs : List Region) :
    m.gather (r :: rs) = m.read r.base r.len ++ m.gather rs := List.flatMap_cons

@[simp] theorem capacity_cons (r : Region) (rs : List Region) :
    capacity (r :: rs) = r.len + capacity rs := List.sum_cons

theorem read_write_of_regions (h : r.Disjoint s) (hlen : bs.length ≤ r.len) :
    (m.write r.base bs).read s.base s.len = m.read s.base s.len := by
  refine read_write_of_disjoint ?_
  rcases h with h | h
  · exact .inr (by omega)
  · exact .inl h

/-- A region that has no byte in common with the others is left alone. -/
theorem read_scatter_of_disjoint (h : ∀ r ∈ rs, r.Disjoint s) :
    (m.scatter rs bs).read s.base s.len = m.read s.base s.len := by
  induction rs generalizing m bs with
  | nil => rfl
  | cons r rs ih =>
    rw [scatter, ih fun r' hr' => h r' (List.mem_cons_of_mem _ hr')]
    exact read_write_of_regions (h r List.mem_cons_self) (List.length_take_le ..)

theorem gather_congr (h : ∀ r ∈ rs, m.read r.base r.len = m'.read r.base r.len) :
    m.gather rs = m'.gather rs := by
  unfold gather
  rw [List.flatMap_def, List.flatMap_def, List.map_congr_left h]

/-- **What was scattered is gathered again** from regions that do not overlap. -/
theorem gather_scatter (hd : rs.Pairwise Region.Disjoint) (hlen : bs.length ≤ capacity rs) :
    ((m.scatter rs bs).gather rs).take bs.length = bs := by
  induction rs generalizing m bs with
  | nil =>
    have hnil : bs = [] := List.length_eq_zero_iff.1 (Nat.le_zero.1 hlen)
    rw [hnil]
    rfl
  | cons r rs ih =>
    obtain ⟨hr, hrs⟩ := List.pairwise_cons.1 hd
    rw [capacity_cons] at hlen
    have hfirst : (m.scatter (r :: rs) bs).read r.base r.len =
        (m.write r.base (bs.take r.len)).read r.base r.len :=
      read_scatter_of_disjoint fun r' hr' => (hr r' hr').symm
    rw [gather_cons, hfirst, List.take_append, length_read, scatter]
    rcases Nat.le_total bs.length r.len with hle | hle
    · -- all bytes are in the first region
      rw [List.take_of_length_le hle, take_read_write_self m _ hle, Nat.sub_eq_zero_of_le hle,
        List.take_zero, List.append_nil]
    · have htake : (bs.take r.len).length = r.len := List.length_take_of_le hle
      have hread := read_write_self m r.base (bs.take r.len)
      rw [htake] at hread
      have hlen' : (bs.drop r.len).length ≤ capacity rs := by
        rw [List.length_drop]
        omega
      have hrest := ih (m := m.write r.base (bs.take r.len)) hrs hlen'
      rw [List.length_drop] at hrest
      rw [hread, hrest, List.take_of_length_le (by omega), List.take_append_drop]

end Memory
