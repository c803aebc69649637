/-
Integers and their text are interchangeable.

`Spells cs n` says that an optional sign and decimal digits, leading zeros or not, stand for an integer. Text that
spells an integer of 64 bits, signed or unsigned, converts into integers and truth values as the integer does.

- Into integers: a destination reads the text as a signed word or as an unsigned one, and which it tries first depends
  on its own sign. Both orders come to a word of the spelled integer (`Wide.exists_ofText?`).
- Into truth values: only "0" and "1" are spellings of a truth value too. All other text is read as a decimal numeral,
  whose nearest double is zero iff the integer is (`Numeral.isZero_pattern`).

An integer as text spells the integer (`spells_toString`), so it can be taken back from its text.

Main statement, on every writable wrapper: `Wrapper.assign_integer_text`.
-/
import DynAssign.Proofs.Integers

namespace DynAssign

/-! ## Spellings -/

/-- an integer written as an optional sign and one or more decimal digits -/
inductive Spells : List Char → Int → Prop where
  | bare {ds : List Char} (hne : ds ≠ []) (hds : ∀ c ∈ ds, c.isDigit = true) : Spells ds (Nat.ofDigitChars 10 ds 0)
  | plus {ds : List Char} (hne : ds ≠ []) (hds : ∀ c ∈ ds, c.isDigit = true) :
    Spells ('+' :: ds) (Nat.ofDigitChars 10 ds 0)
  | minus {ds : List Char} (hne : ds ≠ []) (hds : ∀ c ∈ ds, c.isDigit = true) :
    Spells ('-' :: ds) (-Nat.ofDigitChars 10 ds 0)

theorem splitSign_of_digits {ds : List Char} (hds : ∀ c ∈ ds, c.isDigit = true) : splitSign ds = (false, ds) := by
  unfold splitSign
  split
  · exact absurd (hds '-' List.mem_cons_self) (by decide)
  · exact absurd (hds '+' List.mem_cons_self) (by decide)
  · rfl

theorem integer?_eq_some_iff {cs : List Char} {n : Int} : integer? cs = some n ↔ Spells cs n := by
  constructor
  · intro h
    unfold integer? splitSign at h
    split at h
    rename_i negative ds hsplit
    split at h
    · rename_i hdigits
      obtain ⟨hne, hds⟩ := hdigits
      rw [List.all_eq_true] at hds
      obtain rfl := Option.some.inj h
      split at hsplit
      · cases hsplit
        exact .minus hne hds
      · cases hsplit
        exact .plus hne hds
      · cases hsplit
        exact .bare hne hds
    · cases h
  · intro h
    cases h with
    | bare hne hds =>
      rw [integer?, splitSign_of_digits hds]
      simp only [if_pos (And.intro hne (List.all_eq_true.2 hds))]
      rfl
    | plus hne hds => exact if_pos ⟨hne, List.all_eq_true.2 hds⟩
    | minus hne hds => exact if_pos ⟨hne, List.all_eq_true.2 hds⟩

theorem isDigit_of_mem_toDigits (n : Nat) : ∀ c ∈ Nat.toDigits 10 n, c.isDigit = true :=
  fun _ hc => Nat.isDigit_of_mem_toDigits (by decide) (by decide) hc

theorem spells_toString (n : Int) : Spells (toString n).toList n := by
  rw [Int.toString_eq_repr, Int.repr_eq_if]
  by_cases hn : 0 ≤ n
  · have h := Spells.bare Nat.toDigits_ne_nil (isDigit_of_mem_toDigits n.toNat)
    rw [Nat.ofDigitChars_ten_toDigits, Int.toNat_of_nonneg hn] at h
    rwa [if_pos hn, Nat.toList_repr]
  · have h := Spells.minus Nat.toDigits_ne_nil (isDigit_of_mem_toDigits (-n).toNat)
    rw [Nat.ofDigitChars_ten_toDigits, Int.toNat_of_nonneg (by omega), Int.neg_neg] at h
    rw [if_neg hn, String.toList_append, Nat.toList_repr]
    exact h

namespace Spells

variable {cs : List Char} {n : Int}

/-- only text with a minus sign stands for a negative integer -/
theorem nonneg (h : Spells cs n) (hsign : cs.head? ≠ some '-') : 0 ≤ n := by
  cases h with
  | bare hne hds => exact Int.natCast_nonneg _
  | plus hne hds => exact Int.natCast_nonneg _
  | minus hne hds => exact absurd rfl hsign

theorem nonpos (h : Spells cs n) (hsign : cs.head? = some '-') : n ≤ 0 := by
  cases h with
  | bare hne hds => exact absurd (hds '-' (List.mem_of_head? hsign)) (by decide)
  | plus hne hds => cases hsign
  | minus hne hds => omega

end Spells

/-! ## Text into integers -/

/-- text read as a signed word: an integer that 64 bits hold as signed -/
def signedWord? (cs : List Char) : Option (BitVec 64) :=
  ((integer? cs).filter fun n => -2 ^ 63 ≤ n ∧ n < 2 ^ 63).map (BitVec.ofInt 64)

/-- text read as an unsigned word: an integer that 64 bits hold as unsigned; a minus sign is refused, even before 0 -/
def unsignedWord? (cs : List Char) : Option (BitVec 64) :=
  if cs.head? = some '-' then none
  else ((integer? cs).filter fun n => n < 2 ^ 64).map (BitVec.ofInt 64)

/-- text read as a word: a signed destination tries a signed word first, an unsigned one an unsigned word -/
def Wide.ofText? (signed : Bool) (cs : List Char) : Option Wide :=
  if signed then (signedWord? cs).map .signed <|> (unsignedWord? cs).map .unsigned
  else (unsignedWord? cs).map .unsigned <|> (signedWord? cs).map .signed

section

variable {cs : List Char} {n : Int}

theorem signedWord?_of_spells (h : Spells cs n) (hge : -2 ^ 63 ≤ n) (hlt : n < 2 ^ 63) :
    signedWord? cs = some (BitVec.ofInt 64 n) ∧ (BitVec.ofInt 64 n).toInt = n := by
  refine ⟨?_, BitVec.toInt_ofInt_eq_self (by decide) hge hlt⟩
  rw [signedWord?, integer?_eq_some_iff.2 h, Option.filter_some, if_pos (by simpa using ⟨hge, hlt⟩)]
  rfl

theorem unsignedWord?_of_spells (h : Spells cs n) (hsign : cs.head? ≠ some '-') (hlt : n < 2 ^ 64) :
    unsignedWord? cs = some (BitVec.ofInt 64 n) ∧ ((BitVec.ofInt 64 n).toNat : Int) = n := by
  have hnonneg := h.nonneg hsign
  constructor
  · rw [unsignedWord?, if_neg hsign, integer?_eq_some_iff.2 h, Option.filter_some, if_pos (by simpa using hlt)]
    rfl
  · rw [BitVec.toNat_ofInt]
    omega

theorem signedWord?_eq_none (h : Spells cs n) (hge : 2 ^ 63 ≤ n) : signedWord? cs = none := by
  rw [signedWord?, integer?_eq_some_iff.2 h, Option.filter_some, if_neg (by simp; omega)]
  rfl

/-- **Both orders come to a word of the spelled integer.** -/
theorem Wide.exists_ofText? (h : Spells cs n) (hge : -2 ^ 63 ≤ n) (hlt : n < 2 ^ 64) (signed : Bool) :
    ∃ r, ofText? signed cs = some r ∧ r.toInt = n := by
  cases signed with
  | true =>
    rw [ofText?, if_pos rfl]
    by_cases hsmall : n < 2 ^ 63
    · obtain ⟨hword, hvalue⟩ := signedWord?_of_spells h hge hsmall
      exact ⟨.signed (BitVec.ofInt 64 n), by rw [hword]; rfl, hvalue⟩
    · -- past the signed range there is no minus sign
      have hsign : cs.head? ≠ some '-' := fun hsign => by
        have := h.nonpos hsign
        omega
      obtain ⟨hword, hvalue⟩ := unsignedWord?_of_spells h hsign hlt
      have hno := signedWord?_eq_none h (by omega)
      exact ⟨.unsigned (BitVec.ofInt 64 n), by rw [hno, hword]; rfl, hvalue⟩
  | false =>
    rw [ofText?, if_neg (by simp)]
    by_cases hsign : cs.head? = some '-'
    · have hnonpos := h.nonpos hsign
      obtain ⟨hword, hvalue⟩ := signedWord?_of_spells h hge (by omega)
      have hno : unsignedWord? cs = none := if_pos hsign
      exact ⟨.signed (BitVec.ofInt 64 n), by rw [hno, hword]; rfl, hvalue⟩
    · obtain ⟨hword, hvalue⟩ := unsignedWord?_of_spells h hsign hlt
      exact ⟨.unsigned (BitVec.ofInt 64 n), by rw [hword]; rfl, hvalue⟩

theorem Number.ofText?_of_spells {s : String} (h : Spells s.toList n) (hge : -2 ^ 63 ≤ n) (hlt : n < 2 ^ 64) :
    ofText? s = some (.integer n) := by
  have hfits : fits n = true := by
    rw [fits, Bool.and_eq_true, decide_eq_true_eq, decide_eq_true_eq]
    exact ⟨hge, hlt⟩
  rw [ofText?, integer?_eq_some_iff.2 h, Option.filter_some, if_pos hfits]

end

/-! ## Text into truth values -/

namespace Precision

/-- how a double is read, its widths put in -/
theorem read_double (x : BitVec double.bits) : double.read x =
    let fraction := x.toNat % 4503599627370496
    let field := x.toNat / 4503599627370496 % 2048
    if field = 2047 then if fraction = 0 then .infinite x.msb else .nan x.msb
    else if field = 0 then .finite x.msb fraction (-1074)
    else .finite x.msb (4503599627370496 + fraction) (-1074 + field - 1) := rfl

/-- a double is zero iff nothing but its sign bit is set -/
theorem isZero_read (x : BitVec double.bits) : (double.read x).isZero = true ↔ x.toNat % 2 ^ 63 = 0 := by
  have hlt : x.toNat < 2 ^ 64 := x.isLt
  rw [read_double]
  dsimp only
  split_ifs with hmax hfraction hfield
  · simp only [Extended.isZero, Bool.false_eq_true, false_iff]
    omega
  · simp only [Extended.isZero, Bool.false_eq_true, false_iff]
    omega
  · simp only [Extended.isZero, decide_eq_true_eq]
    omega
  · simp only [Extended.isZero, decide_eq_true_eq]
    omega

/-- the logarithm of a positive integer is not below that of 1 by more than the rounding -/
theorem floorLog2_one (n : Nat) : -1 ≤ floorLog2 n 1 := by
  unfold floorLog2
  have hlog : Nat.log2 1 = 0 := by decide
  dsimp only
  rw [hlog]
  split <;> omega

/-- the last place of a double that is near an integer lies far above the least place there is -/
theorem lt_placeFor (n : Nat) : double.minExponent < double.placeFor n 1 := by
  have hlog := floorLog2_one n
  have hbits : (double.fractionBits : Int) = 52 := rfl
  have hmin : double.minExponent = -1074 := rfl
  rw [placeFor, hbits, hmin]
  omega

theorem isZero_nearest (negative : Bool) (n : Nat) :
    (double.read (double.nearest negative n 1)).isZero = true ↔ n = 0 := by
  have hinf : double.infinityBits = 9218868437227405312 := rfl
  have hsign : double.signBit negative = 0 ∨ double.signBit negative = 9223372036854775808 := by
    cases negative with
    | false => exact .inl rfl
    | true => exact .inr rfl
  have hplaces : 0 < (double.placeFor n 1 - double.minExponent).toNat := by
    have := lt_placeFor n
    omega
  have hwidth : 2 ^ double.bits = 18446744073709551616 := rfl
  rw [isZero_read, nearest, BitVec.toNat_ofNat, hinf, hwidth]
  by_cases hn : n = 0
  · rw [if_pos hn]
    omega
  · rw [if_neg hn]
    have hmagnitude (m : Nat) :
        0 < m + (double.placeFor n 1 - double.minExponent).toNat * 2 ^ double.fractionBits :=
      Nat.add_pos_right m (Nat.mul_pos hplaces (by decide))
    have hpos := hmagnitude (roundDiv (n * 2 ^ (-double.placeFor n 1).toNat) (1 * 2 ^ (double.placeFor n 1).toNat))
    generalize roundDiv _ _ + _ = magnitude at hpos ⊢
    omega

theorem isZero_infinite (negative : Bool) : (double.read (double.write (.infinite negative))).isZero = false := by
  cases negative <;> decide

end Precision

namespace Numeral

theorem decimal?_of_digits {ds : List Char} (hne : ds ≠ []) (hds : ∀ c ∈ ds, c.isDigit = true) :
    decimal? ds = some ⟨Nat.ofDigitChars 10 ds 0, 0⟩ := by
  have hwhole : ds.takeWhile Char.isDigit = ds := List.takeWhile_eq_self_iff.2 hds
  have hrest : ds.dropWhile Char.isDigit = [] := List.dropWhile_eq_nil_iff.2 hds
  rw [decimal?, hwhole, hrest]
  simp only [List.append_nil, if_neg hne]
  rfl

/-- a spelled integer is a decimal without an exponent -/
theorem parse?_of_spells {cs : List Char} {n : Int} (h : Spells cs n) :
    ∃ negative, parse? cs = some (.decimal negative ⟨n.natAbs, 0⟩) := by
  cases h with
  | bare hne hds =>
    refine ⟨false, ?_⟩
    rw [parse?, splitSign_of_digits hds]
    simp only [decimal?_of_digits hne hds]
    rfl
  | plus hne hds =>
    refine ⟨false, ?_⟩
    simp only [parse?, splitSign, decimal?_of_digits hne hds]
    rfl
  | minus hne hds =>
    refine ⟨true, ?_⟩
    simp only [parse?, splitSign, decimal?_of_digits hne hds, Int.natAbs_neg]
    rfl

theorem isZero_pattern (negative : Bool) (n : Nat) :
    (Precision.double.read ((decimal negative ⟨n, 0⟩).pattern .double)).isZero = true ↔ n = 0 := by
  rw [pattern]
  dsimp only
  split_ifs with hsmall hlarge
  · obtain rfl : n = 0 := by omega
    exact Precision.isZero_nearest negative 0
  · rw [Precision.isZero_infinite]
    simp only [Bool.false_eq_true, false_iff]
    omega
  · have hone : n * 10 ^ (0 : Int).toNat = n := Nat.mul_one n
    rw [hone]
    exact Precision.isZero_nearest negative n

end Numeral

/-- of the spellings of the truth values only "1" and "0" are integers, and they say what the integer says -/
theorem truth?_of_integer {s : String} {b : Bool} {n : Int} (hb : truth? s = some b) (hn : integer? s.toList = some n) :
    b = decide (n ≠ 0) := by
  have htrue : ∀ s ∈ ["1", "t", "T", "TRUE", "true", "True"], ∀ n ∈ integer? s.toList, n ≠ 0 := by decide
  have hfalse : ∀ s ∈ ["0", "f", "F", "FALSE", "false", "False"], ∀ n ∈ integer? s.toList, n = 0 := by decide
  unfold truth? at hb
  split at hb
  · rename_i hmem
    cases hb
    simpa using htrue s hmem n hn
  · split at hb
    · rename_i hmem
      cases hb
      simpa using hfalse s hmem n hn
    · cases hb

theorem Scalar.truthReading?_of_spells {s : String} {n : Int} (h : Spells s.toList n) :
    (string s).truthReading? = some (decide (n ≠ 0)) := by
  rw [truthReading?]
  cases hb : truth? s with
  | some b =>
    rw [truth?_of_integer hb (integer?_eq_some_iff.2 h)]
    rfl
  | none =>
    obtain ⟨negative, hparse⟩ := Numeral.parse?_of_spells h
    have hzero := Numeral.isZero_pattern negative n.natAbs
    rw [Int.natAbs_eq_zero] at hzero
    have hnonzero : (Number.ofNumeral? s).map Number.isNonzero = some (decide (n ≠ 0)) := by
      rw [Number.ofNumeral?, hparse, Option.map_some, Option.map_some, Number.isNonzero, Option.some_inj,
        Bool.eq_iff_iff, Bool.not_eq_true', decide_eq_true_eq, ← Bool.not_eq_true, hzero]
    exact hnonzero

/-! ## Conversions -/

/-- a kind that integers convert into -/
def ScalarKind.isIntegral : ScalarKind → Bool
  | bool | int _ => true
  | float _ | string => false

theorem Scalar.exists_convert? {i : Scalar} {n : Int} (hi : i.integer? = some n) {k : ScalarKind}
    (hk : k.isIntegral = true) : ∃ r, i.convert? k = some r := by
  cases k with
  | bool => exact ⟨_, convert?_bool hi⟩
  | int k => exact ⟨_, convert?_int hi k⟩
  | float p => cases hk
  | string => cases hk

theorem Scalar.convert?_of_spells {s : String} {i : Scalar} {n : Int} (h : Spells s.toList n) (hge : -2 ^ 63 ≤ n)
    (hlt : n < 2 ^ 64) (hi : i.integer? = some n) {k : ScalarKind} (hk : k.isIntegral = true) :
    (string s).convert? k = i.convert? k := by
  cases k with
  | bool => rw [convert?_bool hi, convert?, truthReading?_of_spells h, Option.map_some]
  | int k =>
    rw [convert?_int hi, convert?, integerReading?, Number.ofText?_of_spells h hge hlt, Option.map_some]
  | float p => cases hk
  | string => cases hk

/-! ## Assignments -/

namespace Wrapper

variable {S : Schema} {w : Wrapper} {t : Ty} {k : ScalarKind}

/-- Text that spells an integer of 64 bits and a source that stands for it convert to one scalar, and both leave it. -/
theorem assign_of_spells (hw : Built S w) (ht : w.declared = some t) (hk : t.resolved = .scalar k)
    (hintegral : k.isIntegral = true) {s : String} {n : Int} (hs : Spells s.toList n) (hge : -2 ^ 63 ≤ n)
    (hlt : n < 2 ^ 64) {text number : Value} {i : Scalar} (htext : text.concrete.scalar? = some (.string s))
    (hnumber : number.concrete = .scalar i) (hi : i.integer? = some n) :
    ∃ r, i.convert? k = some r ∧ w.assign S text = .ok (w.put (.scalar r)) ∧
      w.assign S number = .ok (w.put (.scalar r)) ∧ (w.put (.scalar r)).contents? = some (.scalar r) := by
  have hscalar : number.concrete.scalar? = some i := by rw [hnumber]; rfl
  obtain ⟨r, hr⟩ := Scalar.exists_convert? hi hintegral
  have hrtext := (Scalar.convert?_of_spells hs hge hlt hi hintegral).trans hr
  obtain ⟨hput, hcontents⟩ := assign_of_scalar hw ht hk htext rfl hrtext
  obtain ⟨hput', -⟩ := assign_of_scalar hw ht hk hscalar (Scalar.convert?_kind hi) hr
  exact ⟨r, hr, hput, hput', hcontents⟩

theorem assign_integer_to_text {u : Wrapper} (hu : Built S u) {t : Ty} (ht : u.declared = some t)
    (hstring : t.resolved = .scalar .string) {number : Value} {j : IntKind} {x : BitVec j.bits}
    (hnumber : number.concrete = .scalar (.int j x)) :
    (u.assign S number).value.1 = .ok () ∧
      (u.assign S number).value.2.contents? = some (.scalar (.string (toString (j.toInt x)))) := by
  have hsource : number.concrete.scalar? = some (.int j x) := by rw [hnumber]; rfl
  have htext : (Scalar.int j x).convert? .string = some (.string (toString (j.toInt x))) := rfl
  obtain ⟨hput, hcontents⟩ := assign_of_scalar hu ht hstring hsource (Scalar.convert?_kind rfl) htext
  rw [hput]
  exact ⟨rfl, hcontents⟩

/-- **Integers and their text are interchangeable.** On every writable wrapper on an integer or a truth value:
- text that spells an integer of 64 bits, signed or unsigned, is assigned as any source that stands for that integer,
  and there are such sources; contents of an integer kind become the cut word that the text is read into;
- what an integer of any kind leaves in contents of text spells the integer, and can be assigned in its place, so an
  integer of the kind of the contents comes back from its text. -/
theorem assign_integer_text (hw : Built S w) (ht : w.declared = some t) (hk : t.resolved = .scalar k)
    (hintegral : k.isIntegral = true) :
    (∀ (s : String) (n : Int), Spells s.toList n → -2 ^ 63 ≤ n → n < 2 ^ 64 →
      (∃ (j : IntKind) (x : BitVec j.bits), j.toInt x = n) ∧
      ∀ (text number : Value) (i : Scalar), text.concrete.scalar? = some (.string s) → number.concrete = .scalar i →
        i.integer? = some n → w.assign S text = w.assign S number ∧ (w.assign S text).value.1 = .ok () ∧
          ∀ j, k = .int j → ∃ r, Wide.ofText? j.signed s.toList = some r ∧
            (w.assign S text).value.2.contents? = some (.scalar (.int j (r.cast j)))) ∧
    ∀ (j : IntKind) (x : BitVec j.bits) (number : Value), number.concrete = .scalar (.int j x) →
      ∀ (u : Wrapper) (t' : Ty), Built S u → u.declared = some t' → t'.resolved = .scalar .string →
        ∃ s, Spells s.toList (j.toInt x) ∧ (u.assign S number).value.1 = .ok () ∧
          (u.assign S number).value.2.contents? = some (.scalar (.string s)) ∧
          w.assign S (.scalar (.string s)) = w.assign S number ∧
          (k = .int j → (w.assign S (.scalar (.string s))).value.2.contents? = some (.scalar (.int j x))) := by
  constructor
  · intro s n hs hge hlt
    refine ⟨⟨_, _, IntKind.toInt_wrap_wide hge hlt⟩, fun text number i htext hnumber hi => ?_⟩
    obtain ⟨r, hr, hput, hput', hcontents⟩ := assign_of_spells hw ht hk hintegral hs hge hlt htext hnumber hi
    rw [hput, hput']
    refine ⟨rfl, rfl, fun j hj => ?_⟩
    obtain ⟨word, hword, rfl⟩ := Wide.exists_ofText? hs hge hlt j.signed
    subst hj
    obtain rfl := Option.some.inj ((Scalar.convert?_int hi j).symm.trans hr)
    refine ⟨word, hword, ?_⟩
    rw [word.cast_eq]
    exact hcontents
  · intro j x number hnumber u t' hu ht' hstring
    have hs := spells_toString (j.toInt x)
    have htext : (Value.scalar (.string (toString (j.toInt x)))).concrete.scalar? = some (.string _) := rfl
    have hi : (Scalar.int j x).integer? = some (j.toInt x) := rfl
    obtain ⟨hge, hlt⟩ := j.toInt_bounds x
    obtain ⟨hok, hshown⟩ := assign_integer_to_text hu ht' hstring hnumber
    obtain ⟨r, hr, hput, hput', hcontents⟩ := assign_of_spells hw ht hk hintegral hs hge hlt htext hnumber hi
    refine ⟨_, hs, hok, hshown, hput.trans hput'.symm, fun hj => ?_⟩
    subst hj
    obtain rfl := Option.some.inj (hr.symm.trans (Scalar.convert?_kind hi))
    rw [hput]
    exact hcontents

/-- 300 in a byte, from text with a sign and a leading zero and from a number -/
theorem assign_integer_text_byte :
    let k : IntKind := ⟨false, .w8⟩
    let w := (own Sample.schema (.scalar (.ofInt k 0))).value
    let number := Value.scalar (.ofInt ⟨true, .w16⟩ 300)
    w.assign Sample.schema (.literal "+0300") = w.assign Sample.schema number ∧
      (w.assign Sample.schema (.literal "+0300")).value.2.contents? = some (.scalar (.ofInt k 44)) := by
  intro k w number
  have hw : Built Sample.schema w := .own (.scalar _)
  have hs : Spells "+0300".toList 300 := integer?_eq_some_iff.1 (by decide)
  have hi : (Scalar.ofInt ⟨true, .w16⟩ 300).integer? = some 300 := rfl
  obtain ⟨htext, -⟩ := assign_integer_text hw rfl rfl rfl (k := .int k)
  obtain ⟨-, hsame⟩ := htext "+0300" 300 hs (by decide) (by decide)
  obtain ⟨hassign, -, hword⟩ := hsame (.literal "+0300") number _ rfl rfl hi
  obtain ⟨r, hr, hcontents⟩ := hword k rfl
  have hread : Wide.ofText? k.signed "+0300".toList = some (.unsigned 300) := rfl
  have hcast : Scalar.int k ((Wide.unsigned 300).cast k) = .ofInt k 44 := by decide
  obtain rfl := Option.some.inj (hread.symm.trans hr)
  rw [hcast] at hcontents
  exact ⟨hassign, hcontents⟩

end Wrapper

end DynAssign
