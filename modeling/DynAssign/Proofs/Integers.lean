/-
Integers and truth values, converted into integers and truth values.

A source of an integer kind stands for an integer, and a truth value for 0 or 1. What a destination of an integer kind
receives is said by `IntKind.Receives` in arithmetic: the representative modulo 2^bits if the kind is signed, and the
remainder modulo 2^bits if it is not, where a negative integer counts as 0.

A machine has no integers, it reads the source into 64 bits, signed for a signed kind and for a truth value, unsigned
otherwise, and cuts these (`Wide`). The two ways agree (`Wide.cast_eq`).

Main statement, on every writable wrapper: `Wrapper.assign_integer`.
-/
import DynAssign.Proofs.RoundTrip

namespace DynAssign

/-! ## What a destination receives -/

namespace IntKind

/-- what a word of a kind has to be for an integer -/
structure Receives (k : IntKind) (v : Int) (y : BitVec k.bits) : Prop where
  /-- a signed kind takes the representative that lies in its range -/
  signed : k.signed = true →
    -2 ^ (k.bits - 1) ≤ k.toInt y ∧ k.toInt y < 2 ^ (k.bits - 1) ∧ k.toInt y ≡ v [ZMOD 2 ^ k.bits]
  /-- there is one such representative -/
  unique : k.signed = true → ∀ z, -2 ^ (k.bits - 1) ≤ z → z < 2 ^ (k.bits - 1) → z ≡ v [ZMOD 2 ^ k.bits] → z = k.toInt y
  /-- an unsigned kind takes the remainder, and 0 for a negative integer -/
  unsigned : k.signed = false → k.toInt y = if v < 0 then 0 else v % 2 ^ k.bits
  /-- an integer that the kind has is received as it is -/
  exact : ∀ x, k.toInt x = v → y = x

variable {k : IntKind}

theorem bits_pos (k : IntKind) : 0 < k.bits := by
  unfold bits
  cases k.width <;> decide

theorem two_pow_bits (k : IntKind) : (2 : Int) ^ k.bits = 2 * 2 ^ (k.bits - 1) := by
  rw [← pow_succ', Nat.sub_add_cancel k.bits_pos]

theorem toInt_wrap_of_signed (hk : k.signed = true) (n : Int) : k.toInt (k.wrap n) = n.bmod (2 ^ k.bits) := by
  rw [toInt, if_pos hk, wrap, BitVec.toInt_ofInt]

theorem toInt_wrap_of_unsigned (hk : k.signed = false) (n : Int) : k.toInt (k.wrap n) = n % 2 ^ k.bits := by
  have hpos : (0 : Int) < 2 ^ k.bits := by positivity
  rw [toInt, if_neg (by simp [hk]), wrap, BitVec.toNat_ofInt, Int.toNat_of_nonneg]
  · push_cast
    rfl
  · push_cast
    exact Int.emod_nonneg n hpos.ne'

/-- the representative in the range of a signed kind -/
theorem eq_bmod {z v : Int} (hge : -2 ^ (k.bits - 1) ≤ z) (hlt : z < 2 ^ (k.bits - 1))
    (hmod : z ≡ v [ZMOD 2 ^ k.bits]) : z = v.bmod (2 ^ k.bits) := by
  have hpow := k.two_pow_bits
  have hself : z.bmod (2 ^ k.bits) = z := by
    refine Int.bmod_eq_of_le_mul_two ?_ ?_
    · push_cast
      omega
    · push_cast
      omega
  have hsame : z % ((2 ^ k.bits : Nat) : Int) = v % ((2 ^ k.bits : Nat) : Int) := by
    push_cast
    exact hmod
  calc z = z.bmod (2 ^ k.bits) := hself.symm
    _ = (z % ((2 ^ k.bits : Nat) : Int)).bmod (2 ^ k.bits) := (Int.emod_bmod z _).symm
    _ = (v % ((2 ^ k.bits : Nat) : Int)).bmod (2 ^ k.bits) := by rw [hsame]
    _ = v.bmod (2 ^ k.bits) := Int.emod_bmod v _

/-- **A number is cut by modular arithmetic with clamping.** -/
theorem receives_toWord (k : IntKind) (v : Int) : k.Receives v ((Number.integer v).toWord k) where
  signed hk := by
    have hword : (Number.integer v).toWord k = k.wrap v := by rw [Number.toWord, if_neg (by simp [hk])]
    rw [hword]
    refine ⟨?_, ?_, ?_⟩
    · rw [toInt, if_pos hk]
      exact BitVec.le_toInt _
    · rw [toInt, if_pos hk]
      exact BitVec.toInt_lt
    · have hmod := Int.bmod_emod (x := v) (m := 2 ^ k.bits)
      push_cast at hmod
      rw [toInt_wrap_of_signed hk]
      exact hmod
  unique hk z hge hlt hmod := by
    rw [Number.toWord, if_neg (by simp [hk]), toInt_wrap_of_signed hk]
    exact eq_bmod hge hlt hmod
  unsigned hk := by
    rw [Number.toWord]
    by_cases hv : v < 0
    · rw [if_pos ⟨by simp [hk], hv⟩, if_pos hv]
      simp [toInt, hk]
    · rw [if_neg (by simp [hv]), if_neg hv, toInt_wrap_of_unsigned hk]
  exact x hx := by
    rw [← hx, Number.toWord_toInt]

end IntKind

/-! ## 64-bit words -/

/-- the word that a machine reads an integer or a truth value into -/
inductive Wide where
  | signed (x : BitVec 64)
  | unsigned (x : BitVec 64)

namespace Wide

/-- an integer of a signed kind and a truth value are read as signed, an integer of an unsigned kind as unsigned -/
def ofScalar? : Scalar → Option Wide
  | .bool b => some (signed (if b then 1 else 0))
  | .int k x => some (if k.signed then signed (x.signExtend 64) else unsigned (x.setWidth 64))
  | .float _ _ | .string _ => none

/-- the integer that a word stands for -/
def toInt : Wide → Int
  | signed x => x.toInt
  | unsigned x => x.toNat

/-- A word cut to a kind: the high bits go, and the sign is read anew. An unsigned kind takes 0 for a negative word. -/
def cast (k : IntKind) : Wide → BitVec k.bits
  | signed x => if k.signed = false ∧ x.toInt < 0 then 0 else x.setWidth k.bits
  | unsigned x => x.setWidth k.bits

def isNonzero : Wide → Bool
  | signed x | unsigned x => x ≠ 0

/-- **Cutting words is cutting integers.** -/
theorem cast_eq (k : IntKind) (r : Wide) : r.cast k = (Number.integer r.toInt).toWord k := by
  cases r with
  | signed x =>
    have hwrap : k.wrap x.toInt = x.setWidth k.bits := BitVec.signExtend_eq_setWidth_of_le x k.bits_le
    simp only [cast, toInt, Number.toWord, hwrap, Bool.not_eq_true']
  | unsigned x =>
    have hwrap : k.wrap (x.toNat : Int) = x.setWidth k.bits := by
      rw [IntKind.wrap, BitVec.ofInt_natCast, BitVec.ofNat_toNat]
    have hnonneg : ¬(x.toNat : Int) < 0 := by omega
    simp only [cast, toInt, Number.toWord, hwrap, hnonneg, and_false, if_false]

theorem isNonzero_eq (r : Wide) : r.isNonzero = decide (r.toInt ≠ 0) := by
  cases r with
  | signed x =>
    have hzero : x = 0 ↔ x.toInt = 0 := (BitVec.toInt_inj (y := 0)).symm
    exact decide_eq_decide.2 (not_congr hzero)
  | unsigned x =>
    have hzero : x = 0 ↔ (x.toNat : Int) = 0 := by
      rw [Int.natCast_eq_zero]
      exact BitVec.toNat_eq
    exact decide_eq_decide.2 (not_congr hzero)

end Wide

/-! ## Sources -/

namespace Scalar

/-- the integer that a scalar stands for, a truth value for 0 or 1 -/
def integer? : Scalar → Option Int
  | bool b => some (if b then 1 else 0)
  | int k x => some (k.toInt x)
  | float _ _ | string _ => none

variable {s : Scalar} {v : Int}

theorem exists_wide (hv : s.integer? = some v) : ∃ r, Wide.ofScalar? s = some r ∧ r.toInt = v := by
  cases s with
  | bool b =>
    obtain rfl := Option.some.inj hv
    refine ⟨_, rfl, ?_⟩
    cases b <;> rfl
  | int k x =>
    obtain rfl := Option.some.inj hv
    refine ⟨_, rfl, ?_⟩
    rw [IntKind.toInt]
    cases k.signed with
    | true => exact BitVec.toInt_signExtend_of_le k.bits_le
    | false => exact congrArg Int.ofNat (BitVec.toNat_setWidth_of_le k.bits_le)
  | float p x => cases hv
  | string t => cases hv

theorem convert?_int (hv : s.integer? = some v) (k : IntKind) :
    s.convert? (.int k) = some (.int k ((Number.integer v).toWord k)) := by
  cases s with
  | bool b =>
    obtain rfl := Option.some.inj hv
    rfl
  | int j x =>
    obtain rfl := Option.some.inj hv
    rfl
  | float p x => cases hv
  | string t => cases hv

theorem convert?_bool (hv : s.integer? = some v) : s.convert? .bool = some (.bool (decide (v ≠ 0))) := by
  cases s with
  | bool b =>
    obtain rfl := Option.some.inj hv
    cases b <;> rfl
  | int j x =>
    obtain rfl := Option.some.inj hv
    rfl
  | float p x => cases hv
  | string t => cases hv

theorem convert?_kind (hv : s.integer? = some v) : s.convert? s.kind = some s := by
  cases s with
  | bool b => rfl
  | int k x =>
    obtain rfl := Option.some.inj hv
    rw [kind, convert?_int rfl, Number.toWord_toInt]
  | float p x => cases hv
  | string t => cases hv

end Scalar

/-! ## Assignments -/

/-- A source that shows a scalar leaves what the scalar converts to, or a fault that quotes it and the zero value. What
is copied, into a destination of the scalar's own kind, has to be what a conversion gives. -/
theorem Wrapper.assign_shown {S : Schema} {w : Wrapper} (hw : Built S w) {t : Ty} (ht : w.declared = some t)
    {src : Value} {s : Scalar} {k : ScalarKind} (hk : t.resolved = .scalar k) (hsrc : src.concrete.scalar? = some s)
    (hself : s.kind = k → s.convert? k = some s) :
    w.assign S src = match s.convert? k with
      | some r => .ok (w.put (.scalar r))
      | none => .fault (.coercion s.described k.name) (w.put (.zero S t.resolved)) := by
  obtain ⟨st, -, h, rfl⟩ := hw.holds_declared ht
  rw [assign_eq_store h, hk, Value.convert_shown hsrc hself]
  cases s.convert? k <;> rfl

theorem Wrapper.assign_of_scalar {S : Schema} {w : Wrapper} (hw : Built S w) {t : Ty} (ht : w.declared = some t)
    {src : Value} {s r : Scalar} {k : ScalarKind} (hk : t.resolved = .scalar k)
    (hsrc : src.concrete.scalar? = some s) (hself : s.convert? s.kind = some s) (hr : s.convert? k = some r) :
    w.assign S src = .ok (w.put (.scalar r)) ∧ (w.put (.scalar r)).contents? = some (.scalar r) := by
  obtain ⟨st, -, h, rfl⟩ := hw.holds_declared ht
  refine ⟨?_, h.contents_put ?_⟩
  · rw [assign_shown hw ht hk hsrc fun hkind => hkind ▸ hself, hr]
  · rw [hk, Value.ty, Scalar.kind_of_convert? hr]

/-- **Integers are converted by modular arithmetic with clamping.** On every writable wrapper, a source of an integer
kind or a truth value, read into a 64-bit word, is assigned without a fault. Contents of an integer kind become the cut
word: what `IntKind.Receives` says, and so the integer itself if the kind has it. Contents of truth values say whether
the integer is not 0. A conversion into the source's own kind gives the source, as the copy does that is made of it. -/
theorem Wrapper.assign_integer {S : Schema} {w : Wrapper} (hw : Built S w) {t : Ty} (ht : w.declared = some t)
    {src : Value} {s : Scalar} (hsrc : src.concrete = .scalar s) {v : Int} (hv : s.integer? = some v) :
    let after := (w.assign S src).value
    ∃ r, Wide.ofScalar? s = some r ∧ r.toInt = v ∧ s.convert? s.kind = some s ∧
      (∀ k, t.resolved = .scalar (.int k) →
        after.1 = .ok () ∧ after.2.contents? = some (.scalar (.int k (r.cast k))) ∧ k.Receives v (r.cast k)) ∧
      (t.resolved = .scalar .bool → after.1 = .ok () ∧ after.2.contents? = some (.scalar (.bool r.isNonzero)) ∧
        (r.isNonzero = true ↔ v ≠ 0)) := by
  intro after
  obtain ⟨r, hr, rfl⟩ := Scalar.exists_wide hv
  have hself := Scalar.convert?_kind hv
  have hscalar : src.concrete.scalar? = some s := by rw [hsrc]; rfl
  refine ⟨r, hr, rfl, hself, ?_, ?_⟩
  · intro k hk
    obtain ⟨hassign, hcontents⟩ := assign_of_scalar hw ht hk hscalar hself (Scalar.convert?_int hv k)
    rw [r.cast_eq k]
    simp only [after, hassign]
    exact ⟨rfl, hcontents, k.receives_toWord r.toInt⟩
  · intro hk
    obtain ⟨hassign, hcontents⟩ := assign_of_scalar hw ht hk hscalar hself (Scalar.convert?_bool hv)
    rw [r.isNonzero_eq]
    simp only [after, hassign]
    exact ⟨rfl, hcontents, decide_eq_true_iff⟩

/-- 200 as a signed byte -/
theorem Wrapper.assign_integer_byte :
    let k : IntKind := ⟨true, .w8⟩
    let w := (own Sample.schema (.scalar (.ofInt k 0))).value
    let src := Value.scalar (.ofInt ⟨false, .w16⟩ 200)
    (w.assign Sample.schema src).value.1 = .ok () ∧
      ∃ y, (w.assign Sample.schema src).value.2.contents? = some (.scalar (.int k y)) ∧ k.toInt y = -56 := by
  intro k w src
  have hw : Built Sample.schema w := .own (.scalar _)
  have hsrc : src.concrete = .scalar (.ofInt ⟨false, .w16⟩ 200) := rfl
  have hv : (Scalar.ofInt ⟨false, .w16⟩ 200).integer? = some 200 := rfl
  obtain ⟨r, -, -, -, hint, -⟩ := assign_integer hw rfl hsrc hv
  obtain ⟨hok, hcontents, hreceives⟩ := hint k rfl
  have hrange := hreceives.unique rfl (-56) (by decide) (by decide) (by decide)
  exact ⟨hok, _, hcontents, hrange.symm⟩

end DynAssign
