/-
Nothing negative reaches an unsigned integer.

A negative source is an integer below zero, a floating-point pattern with its sign bit set, or a numeral behind a minus
sign (`Scalar.IsNegative`). Each is read as a number with a sign: an integer that is not positive, or a double that is
negative or not a number (`Number.IsMinus`).
- A minus sign in front of text is found in the numeral, and in the pattern that stands for the numeral, zeros,
  infinities and nan included (`Numeral.msb_pattern`), as rounding keeps the sign (`Precision.msb_nearest`).
- Whatever the number is, an unsigned kind takes 0 for it (`Number.toWord_of_isMinus`).

Main statement, on every writable wrapper and of every source with a negative leaf: `Wrapper.assign_negative`.
-/
import DynAssign.Proofs.Leaves
import DynAssign.Proofs.Numerals

namespace DynAssign

/-! ## Signs of doubles -/

namespace Extended

/-- the sign, which nan has too -/
def negative : Extended → Bool
  | .nan negative | .infinite negative | .finite negative _ _ => negative

theorem isMinus_of_negative {y : Extended} (h : y.negative = true) : y.isMinus = true := by
  cases y with
  | nan negative => rfl
  | infinite negative => exact h
  | finite negative m e => exact h

end Extended

namespace Precision

variable {p : Precision}

@[simp] theorem negative_read (x : BitVec p.bits) : (p.read x).negative = x.msb := by
  rw [read]
  split_ifs <;> rfl

theorem isMinus_read {x : BitVec p.bits} (hx : x.msb = true) : (p.read x).isMinus = true :=
  Extended.isMinus_of_negative ((p.negative_read x).trans hx)

/-- no magnitude reaches the sign bit -/
theorem infinityBits_lt (p : Precision) : p.infinityBits < 2 ^ (p.bits - 1) := by cases p <;> decide

/-- **Rounding keeps the sign**, whatever it rounds to. -/
@[simp] theorem msb_nearest (p : Precision) (negative : Bool) (num den : Nat) :
    (p.nearest negative num den).msb = negative := by
  have hlt := p.infinityBits_lt
  have hpow : 2 ^ p.bits = 2 * 2 ^ (p.bits - 1) := by cases p <;> rfl
  rw [nearest, BitVec.msb_eq_decide, BitVec.toNat_ofNat, hpow]
  generalize (if num = 0 then 0 else _ : Nat) = magnitude
  cases negative with
  | false =>
    have hsign : p.signBit false = 0 := rfl
    rw [hsign, Nat.mod_eq_of_lt (by omega), decide_eq_false_iff_not]
    omega
  | true =>
    have hsign : p.signBit true = 2 ^ (p.bits - 1) := rfl
    rw [hsign, Nat.mod_eq_of_lt (by omega), decide_eq_true_eq]
    omega

@[simp] theorem msb_write (p : Precision) (y : Extended) : (p.write y).msb = y.negative := by
  cases y with
  | nan negative => cases negative <;> cases p <;> decide
  | infinite negative => cases negative <;> cases p <;> decide
  | finite negative m e => exact p.msb_nearest negative _ _

end Precision

/-! ## Signs of text -/

namespace Numeral

def isMinus : Numeral → Bool
  | nan negative | infinite negative | decimal negative _ => negative

theorem isMinus_of_parse? {cs : List Char} {m : Numeral} (h : parse? cs = some m) (hsign : cs.head? = some '-') :
    m.isMinus = true := by
  obtain ⟨r, rfl⟩ := List.head?_eq_some_iff.1 hsign
  simp only [parse?, splitSign] at h
  cases hd : decimal? r with
  | some d =>
    rw [hd] at h
    rw [← Option.some.inj h]
    rfl
  | none =>
    simp only [hd, Option.map_none, named?] at h
    split_ifs at h with hinf hnan
    · rw [← Option.some.inj h]
      rfl
    · rw [← Option.some.inj h]
      rfl
    · cases h

@[simp] theorem msb_pattern (p : Precision) (m : Numeral) : (m.pattern p).msb = m.isMinus := by
  cases m with
  | nan negative => exact p.msb_write _
  | infinite negative => exact p.msb_write _
  | decimal negative d =>
    rw [pattern]
    split_ifs
    · exact p.msb_write _
    · exact p.msb_write _
    · exact p.msb_nearest negative _ _

end Numeral

/-! ## Numbers -/

namespace Number

/-- an integer that is not positive, or a double that is negative or not a number -/
def IsMinus : Number → Prop
  | integer n => n ≤ 0
  | real x => (Precision.double.read x).isMinus = true

/-- **An unsigned kind takes 0 for what has a minus sign.** -/
theorem toWord_of_isMinus {k : IntKind} (hk : k.signed = false) {n : Number} (h : n.IsMinus) : n.toWord k = 0 := by
  cases n with
  | integer n =>
    rw [toWord]
    split_ifs with hneg
    · rfl
    · have hn : n ≤ 0 := h
      obtain rfl : n = 0 := by
        simp only [hk, Bool.not_false, true_and, Int.not_lt] at hneg
        omega
      rfl
  | real x =>
    have hcut := Extended.truncate_of_isMinus h (2 ^ 64 - 1)
    simp only [toWord, hk, Bool.false_eq_true, if_false, hcut]
    rfl

theorem isMinus_of_ofText? {s : String} {n : Number} (h : ofText? s = some n) (hsign : s.toList.head? = some '-') :
    n.IsMinus := by
  unfold ofText? at h
  split at h
  · next v hv =>
    obtain ⟨hv, -⟩ := Option.filter_eq_some_iff.1 hv
    rw [← Option.some.inj h]
    exact (integer?_eq_some_iff.1 hv).nonpos hsign
  · obtain ⟨m, hm, rfl⟩ := Option.map_eq_some_iff.1 h
    have hminus := Numeral.isMinus_of_parse? hm hsign
    exact Precision.isMinus_read ((Numeral.msb_pattern .double m).trans hminus)

end Number

/-! ## Negative sources -/

/-- a source that is negative: an integer of any kind, a floating-point value of either precision, and a numeral -/
inductive Scalar.IsNegative : Scalar → Prop where
  | int {j : IntKind} {x : BitVec j.bits} (hx : j.toInt x < 0) : IsNegative (.int j x)
  | float {p : Precision} {x : BitVec p.bits} (hx : x.msb = true) : IsNegative (.float p x)
  | text {s : String} (hs : IsNumeral s.toList) (hsign : s.toList.head? = some '-') : IsNegative (.string s)

namespace Scalar.IsNegative

variable {s : Scalar} {k : IntKind}

theorem kind_ne (h : s.IsNegative) (hk : k.signed = false) : s.kind ≠ .int k := by
  intro hkind
  cases h with
  | int hx =>
    obtain rfl := ScalarKind.int.inj hkind
    simp only [IntKind.toInt, hk, Bool.false_eq_true, if_false] at hx
    omega
  | float hx => cases hkind
  | text hs hsign => cases hkind

theorem exists_number (h : s.IsNegative) : ∃ n, s.integerReading? = some n ∧ n.IsMinus := by
  cases h with
  | int hx => exact ⟨_, rfl, hx.le⟩
  | @float p x hx =>
    have hconvert : (p.convert .double x).msb = true := by
      rw [Precision.convert, Precision.msb_write, Precision.negative_read, hx]
    exact ⟨_, rfl, Precision.isMinus_read hconvert⟩
  | text hs hsign =>
    obtain ⟨n, hn⟩ := ofText?_iff.2 hs
    exact ⟨n, hn, Number.isMinus_of_ofText? hn hsign⟩

theorem convert?_unsigned (h : s.IsNegative) (hk : k.signed = false) : s.convert? (.int k) = some (.int k 0) := by
  obtain ⟨n, hn, hminus⟩ := h.exists_number
  rw [Scalar.convert?, hn, Option.map_some, Number.toWord_of_isMinus hk hminus]

end Scalar.IsNegative

theorem Value.convert_of_isNegative {S : Schema} {src u : Value} {s : Scalar} (hu : src.leaf? S = some u)
    (hscalar : u.scalar? = some s) (hs : s.IsNegative) {k : IntKind} (hk : k.signed = false) :
    convert S src (.scalar (.int k)) = pure (.scalar (.int k 0)) := by
  have hleaf := convertLeaf_of_scalar? hscalar fun hkind => absurd hkind (hs.kind_ne hk)
  rw [hs.convert?_unsigned hk] at hleaf
  rw [convert_of_leaf? hu (by simp) (by simp) rfl, hleaf]
  rfl

/-! ## Assignments -/

namespace Wrapper

/-- **Nothing negative reaches an unsigned integer.** On every writable wrapper on an unsigned integer, a source whose
leaf is negative is assigned without a fault and leaves exactly 0, whatever pointers, dynamic slots and lists the leaf
lies in. A text is negative in this sense if it starts with a minus sign and is accepted; the reading that accepts it is
cut to 0. -/
theorem assign_negative {S : Schema} {w : Wrapper} (hw : Built S w) {t : Ty} (ht : w.declared = some t) {k : IntKind}
    (hk : t.resolved = .scalar (.int k)) (hunsigned : k.signed = false) :
    (∀ (src u : Value) (s : Scalar), src.leaf? S = some u → u.scalar? = some s → s.IsNegative →
      w.assign S src = .ok (w.put (.scalar (.int k 0))) ∧
        (w.assign S src).value.2.contents? = some (.scalar (.int k 0))) ∧
    ∀ (src : Value) (s : String), src.concrete.scalar? = some (.string s) → s.toList.head? = some '-' →
      (w.assign S src).value.1 = .ok () → Scalar.IsNegative (.string s) ∧
        (w.assign S src).value.2.contents? = some (.scalar (.int k 0)) ∧
        ∃ r, Reading.ofText? false s.toList = some r ∧ r.cast k = 0 := by
  obtain ⟨st, -, h, rfl⟩ := hw.holds_declared ht
  constructor
  · intro src u s hu hscalar hs
    have hassign : w.assign S src = .ok (w.put (.scalar (.int k 0))) := by
      rw [assign_eq_store h, hk, Value.convert_of_isNegative hu hscalar hs hunsigned, store_pure]
    rw [hassign]
    exact ⟨rfl, h.contents_put hk.symm⟩
  · intro src s hsrc hsign hok
    have hassign := assign_shown hw ht hk hsrc fun hkind => by cases hkind
    have haccepts : IsNumeral s.toList := by
      apply (Scalar.convert?_string_iff (.int k)).1
      cases hr : (Scalar.string s).convert? (.int k) with
      | some r => exact ⟨r, rfl⟩
      | none =>
        rw [hassign, hr] at hok
        cases hok
    have hs : Scalar.IsNegative (.string s) := .text haccepts hsign
    obtain ⟨n, hn⟩ := Scalar.ofText?_iff.2 haccepts
    obtain ⟨r, hr, hcut⟩ := Scalar.exists_reading (k := k) hn
    rw [hunsigned] at hr
    rw [hassign, hs.convert?_unsigned hunsigned]
    refine ⟨hs, h.contents_put hk.symm, r, hr, hcut.trans ?_⟩
    exact Number.toWord_of_isMinus hunsigned (Number.isMinus_of_ofText? hn hsign)

/-- text below the signed words, which is read as a double, last in a list behind a pointer -/
theorem assign_negative_byte :
    let k : IntKind := ⟨false, .w8⟩
    let w := (own Sample.schema (.scalar (.ofInt k 5))).value
    let src := Value.ptr (.list (.scalar .string) [.scalar (.string "7"), .scalar (.string "-9223372036854775809")])
    (w.assign Sample.schema src).value.1 = .ok () ∧
      (w.assign Sample.schema src).value.2.contents? = some (.scalar (.int k 0)) ∧
      ∃ r, Reading.ofText? false "-0.5e1".toList = some r ∧ r.cast k = 0 := by
  intro k w src
  have hw : Built Sample.schema w := .own (.scalar _)
  obtain ⟨hnegative, htext⟩ := assign_negative hw rfl rfl rfl (k := k)
  have hleaf : src.leaf? Sample.schema = some (.scalar (.string "-9223372036854775809")) := by cbv
  obtain ⟨hassign, hcontents⟩ := hnegative src _ _ hleaf rfl (.text (by decide) (by decide))
  obtain ⟨-, -, hread⟩ := htext (.literal "-0.5e1") "-0.5e1" rfl (by decide) (by cbv)
  refine ⟨?_, hcontents, hread⟩
  rw [hassign]
  rfl

end Wrapper

end DynAssign
