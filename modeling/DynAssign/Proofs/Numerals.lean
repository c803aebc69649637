/-
Text that is a number: one grammar for every numeric destination.

`IsNumeral` is the grammar: an optional sign, then digits with an optional point and an optional exponent, or a named
value. It says which text a double is read from (`Numeral.parse?_iff`).

An integer destination tries more than one reading. `Reading.ofText?` has them in order: a signed word and an unsigned
one, which of the two first depends on the destination, and then a double. Text that spells an integer is a numeral as
well, whatever words its integer fits, so the three together accept the numerals (`Reading.ofText?_iff`), and what they
read is cut to what the conversion gives (`Reading.cast_ofText?`).

Truth values accept a few words besides, and text accepts any text (`ScalarKind.Accepts`). Main statement, on every
writable wrapper: `Wrapper.assign_text`.
-/
import DynAssign.Proofs.IntegerText

namespace DynAssign

/-! ## The grammar -/

/-- an exponent: nothing, or e in either case and an integer -/
inductive IsExponent : List Char → Prop where
  | none : IsExponent []
  | some {c : Char} {cs : List Char} {n : Int} (hc : c = 'e' ∨ c = 'E') (hcs : Spells cs n) : IsExponent (c :: cs)

/-- a decimal: digits, an optional point with digits behind it, at least one digit on either side, and an exponent -/
inductive IsDecimal : List Char → Prop where
  | whole {ds tail : List Char} (hds : ∀ c ∈ ds, c.isDigit = true) (hne : ds ≠ []) (htail : IsExponent tail) :
    IsDecimal (ds ++ tail)
  | point {ds fs tail : List Char} (hds : ∀ c ∈ ds, c.isDigit = true) (hfs : ∀ c ∈ fs, c.isDigit = true)
    (hne : ds ++ fs ≠ []) (htail : IsExponent tail) : IsDecimal (ds ++ '.' :: (fs ++ tail))

/-- a named value, letter case aside -/
def IsNamed (cs : List Char) : Prop := String.ofList (cs.map Char.toLower) ∈ ["inf", "infinity", "nan"]

/-- a numeral: an optional sign, then a decimal or a named value -/
inductive IsNumeral : List Char → Prop where
  | bare {cs : List Char} (h : IsDecimal cs ∨ IsNamed cs) : IsNumeral cs
  | plus {cs : List Char} (h : IsDecimal cs ∨ IsNamed cs) : IsNumeral ('+' :: cs)
  | minus {cs : List Char} (h : IsDecimal cs ∨ IsNamed cs) : IsNumeral ('-' :: cs)

theorem IsExponent.head {tail : List Char} (h : IsExponent tail) : ∀ c ∈ tail.head?, c.isDigit = false ∧ c ≠ '.' := by
  intro c hc
  cases h with
  | none => cases hc
  | some he hcs =>
    obtain rfl := Option.some.inj hc
    rcases he with rfl | rfl <;> decide

/-! ## Doubles -/

namespace Numeral

variable {cs ds fs tail : List Char}

theorem exponent?_iff : (∃ x, exponent? cs = some x) ↔ IsExponent cs := by
  constructor
  · rintro ⟨x, hx⟩
    cases cs with
    | nil => exact .none
    | cons c cs =>
      rw [exponent?] at hx
      split_ifs at hx with hc
      exact .some hc (integer?_eq_some_iff.1 hx)
  · intro h
    cases h with
    | none => exact ⟨0, rfl⟩
    | some hc hcs => exact ⟨_, (if_pos hc).trans (integer?_eq_some_iff.2 hcs)⟩

theorem span_digits (hds : ∀ c ∈ ds, c.isDigit = true) (htail : ∀ c ∈ tail.head?, c.isDigit = false) :
    (ds ++ tail).takeWhile Char.isDigit = ds ∧ (ds ++ tail).dropWhile Char.isDigit = tail := by
  rw [List.takeWhile_append_of_pos hds, List.dropWhile_append_of_pos hds]
  cases tail with
  | nil => simp
  | cons c cs =>
    have hc : c.isDigit = false := htail c rfl
    simp [hc]

theorem decimal?_whole (hds : ∀ c ∈ ds, c.isDigit = true) (hne : ds ≠ [])
    (htail : ∀ c ∈ tail.head?, c.isDigit = false ∧ c ≠ '.') :
    decimal? (ds ++ tail) = (exponent? tail).map fun x => ⟨ofDigits ds, x⟩ := by
  obtain ⟨htake, hdrop⟩ := span_digits hds fun c hc => (htail c hc).1
  rw [decimal?, htake, hdrop]
  split
  next fraction rest hrest =>
  split at hrest
  · exact absurd rfl (htail '.' rfl).2
  · obtain ⟨rfl, rfl⟩ := Prod.mk.inj hrest
    simp [hne]

theorem decimal?_point (hds : ∀ c ∈ ds, c.isDigit = true) (hfs : ∀ c ∈ fs, c.isDigit = true) (hne : ds ++ fs ≠ [])
    (htail : ∀ c ∈ tail.head?, c.isDigit = false) :
    decimal? (ds ++ '.' :: (fs ++ tail)) = (exponent? tail).map fun x => ⟨ofDigits (ds ++ fs), x - fs.length⟩ := by
  have hpoint : ∀ c ∈ ('.' :: (fs ++ tail)).head?, c.isDigit = false := by simp
  obtain ⟨htake, hdrop⟩ := span_digits hds hpoint
  obtain ⟨htake', hdrop'⟩ := span_digits hfs htail
  rw [decimal?, htake, hdrop]
  simp only [htake', hdrop', if_neg hne]

theorem decimal?_iff : (∃ d, decimal? cs = some d) ↔ IsDecimal cs := by
  constructor
  · rintro ⟨d, hd⟩
    have hsplit := List.takeWhile_append_dropWhile (p := Char.isDigit) (l := cs)
    have hds : ∀ c ∈ cs.takeWhile Char.isDigit, c.isDigit = true := fun c => List.mem_takeWhile_imp
    rw [decimal?] at hd
    generalize cs.takeWhile Char.isDigit = ds at hsplit hds hd
    generalize cs.dropWhile Char.isDigit = rest at hsplit hd
    subst hsplit
    split at hd
    next fs tail hrest =>
    dsimp only at hd
    split_ifs at hd with hne
    obtain ⟨x, hx, -⟩ := Option.map_eq_some_iff.1 hd
    have htail := exponent?_iff.1 ⟨x, hx⟩
    split at hrest
    · next r =>
      obtain ⟨rfl, rfl⟩ := Prod.mk.inj hrest
      have hpoint := IsDecimal.point hds (fun c => List.mem_takeWhile_imp) hne htail
      rwa [List.takeWhile_append_dropWhile] at hpoint
    · obtain ⟨rfl, rfl⟩ := Prod.mk.inj hrest
      rw [List.append_nil] at hne
      exact .whole hds hne htail
  · intro h
    cases h with
    | whole hds hne htail =>
      obtain ⟨x, hx⟩ := exponent?_iff.2 htail
      rw [decimal?_whole hds hne htail.head, hx]
      exact ⟨_, rfl⟩
    | point hds hfs hne htail =>
      obtain ⟨x, hx⟩ := exponent?_iff.2 htail
      rw [decimal?_point hds hfs hne fun c hc => (htail.head c hc).1, hx]
      exact ⟨_, rfl⟩

theorem named?_iff (negative : Bool) : (∃ m, named? negative cs = some m) ↔ IsNamed cs := by
  simp only [named?, IsNamed, List.mem_cons, List.not_mem_nil, or_false]
  split_ifs with hinf hnan
  · simp [← or_assoc, hinf]
  · simp [hnan]
  · simp [hinf, hnan]

/-- text without a sign: a decimal is tried first, then the named values -/
theorem unsigned_iff (negative : Bool) :
    (∃ m, ((decimal? cs).map (.decimal negative) <|> named? negative cs) = some m) ↔ IsDecimal cs ∨ IsNamed cs := by
  rw [← decimal?_iff, ← named?_iff negative]
  cases decimal? cs with
  | some d => simp
  | none => simp

theorem not_unsigned_of_sign {c : Char} (hc : c = '-' ∨ c = '+') (r : List Char) :
    ¬(IsDecimal (c :: r) ∨ IsNamed (c :: r)) := by
  rw [← unsigned_iff false]
  rcases hc with rfl | rfl <;> simp [decimal?, named?, ← String.toList_inj]

theorem splitSign_of_unsigned (h : IsDecimal cs ∨ IsNamed cs) : splitSign cs = (false, cs) := by
  unfold splitSign
  split
  · exact absurd h (not_unsigned_of_sign (.inl rfl) _)
  · exact absurd h (not_unsigned_of_sign (.inr rfl) _)
  · rfl

/-- **A double is read from a text iff the text is a numeral.** -/
theorem parse?_iff : (∃ m, parse? cs = some m) ↔ IsNumeral cs := by
  constructor
  · rintro ⟨m, hm⟩
    unfold parse? splitSign at hm
    split at hm
    next negative r hsplit =>
    have hr := (unsigned_iff negative).1 ⟨m, hm⟩
    split at hsplit
    · obtain ⟨-, rfl⟩ := Prod.mk.inj hsplit
      exact .minus hr
    · obtain ⟨-, rfl⟩ := Prod.mk.inj hsplit
      exact .plus hr
    · obtain ⟨-, rfl⟩ := Prod.mk.inj hsplit
      exact .bare hr
  · intro h
    cases h with
    | bare h =>
      rw [parse?, splitSign_of_unsigned h]
      exact (unsigned_iff false).2 h
    | plus h => exact (unsigned_iff false).2 h
    | minus h => exact (unsigned_iff true).2 h

end Numeral

instance (cs : List Char) : Decidable (IsNumeral cs) :=
  decidable_of_iff ((Numeral.parse? cs).isSome = true) (by rw [Option.isSome_iff_exists, Numeral.parse?_iff])

/-! ## Words -/

theorem exists_spells_of_signedWord? {cs : List Char} {x : BitVec 64} (h : signedWord? cs = some x) :
    ∃ n, Spells cs n ∧ -2 ^ 63 ≤ n ∧ n < 2 ^ 63 := by
  obtain ⟨n, hn, -⟩ := Option.map_eq_some_iff.1 h
  obtain ⟨hn, hrange⟩ := Option.filter_eq_some_iff.1 hn
  exact ⟨n, integer?_eq_some_iff.1 hn, by simpa using hrange⟩

theorem exists_spells_of_unsignedWord? {cs : List Char} {x : BitVec 64} (h : unsignedWord? cs = some x) :
    ∃ n, Spells cs n ∧ 0 ≤ n ∧ n < 2 ^ 64 := by
  unfold unsignedWord? at h
  split_ifs at h with hsign
  obtain ⟨n, hn, -⟩ := Option.map_eq_some_iff.1 h
  obtain ⟨hn, hlt⟩ := Option.filter_eq_some_iff.1 hn
  have hspells := integer?_eq_some_iff.1 hn
  exact ⟨n, hspells, hspells.nonneg hsign, by simpa using hlt⟩

namespace Wide

/-- a word is read from text iff the text spells an integer of 64 bits, signed or unsigned -/
theorem ofText?_iff {cs : List Char} (signed : Bool) :
    (∃ r, ofText? signed cs = some r) ↔ ∃ n, Spells cs n ∧ -2 ^ 63 ≤ n ∧ n < 2 ^ 64 := by
  constructor
  · rintro ⟨r, hr⟩
    cases hs : signedWord? cs with
    | some x =>
      obtain ⟨n, hn, hge, hlt⟩ := exists_spells_of_signedWord? hs
      exact ⟨n, hn, hge, by omega⟩
    | none =>
      cases hu : unsignedWord? cs with
      | some x =>
        obtain ⟨n, hn, hge, hlt⟩ := exists_spells_of_unsignedWord? hu
        exact ⟨n, hn, by omega, hlt⟩
      | none =>
        rw [ofText?, hs, hu] at hr
        cases signed <;> cases hr
  · rintro ⟨n, hn, hge, hlt⟩
    obtain ⟨r, hr, -⟩ := exists_ofText? hn hge hlt signed
    exact ⟨r, hr⟩

end Wide

/-- text that spells no integer of 64 bits is read as a numeral alone -/
theorem Number.ofText?_of_not_spells {s : String} (h : ¬∃ n, Spells s.toList n ∧ -2 ^ 63 ≤ n ∧ n < 2 ^ 64) :
    ofText? s = ofNumeral? s := by
  have hno : (integer? s.toList).filter fits = none := by
    rw [Option.filter_eq_none_iff]
    intro n hn hfits
    rw [fits, Bool.and_eq_true, decide_eq_true_eq, decide_eq_true_eq] at hfits
    exact h ⟨n, integer?_eq_some_iff.1 hn, hfits⟩
  rw [ofText?, hno]

/-! ## Doubles as words -/

namespace Extended

/-- below zero in a comparison, which neither nan nor a zero of either sign is -/
def isBelowZero : Extended → Bool
  | .nan _ => false
  | .infinite negative => negative
  | .finite negative m _ => negative && m ≠ 0

/-- negative, a zero or an infinity with that sign included, or not a number -/
def isMinus : Extended → Bool
  | .nan _ => true
  | .infinite negative => negative
  | .finite negative _ _ => negative

theorem isMinus_of_isBelowZero {y : Extended} (h : y.isBelowZero = true) : y.isMinus = true := by
  cases y with
  | nan negative => rfl
  | infinite negative => exact h
  | finite negative m e => exact (Bool.and_eq_true_iff.1 h).1

theorem truncate_mem (y : Extended) (lo hi : Int) (hlo : lo ≤ 0) (hhi : 0 ≤ hi) :
    lo ≤ y.truncate lo hi ∧ y.truncate lo hi ≤ hi := by
  cases y with
  | nan negative => exact ⟨hlo, hhi⟩
  | infinite negative => cases negative <;> simp [truncate] <;> omega
  | finite negative m e =>
    rw [truncate]
    omega

/-- what has a minus sign is cut to 0 where nothing is below it -/
theorem truncate_of_isMinus {y : Extended} (h : y.isMinus = true) (hi : Int) : y.truncate 0 hi = 0 := by
  cases y with
  | nan negative => rfl
  | infinite negative =>
    obtain rfl : negative = true := h
    rfl
  | finite negative m e =>
    obtain rfl : negative = true := h
    rw [truncate, if_pos rfl]
    generalize m * 2 ^ e.toNat / 2 ^ (-e).toNat = whole
    omega

end Extended

namespace Wide

/-- a double as a word: the fraction is cut off, and the rest clamped to the range of the word -/
def ofReal (signed : Bool) (y : Extended) : Wide :=
  if signed then .signed (BitVec.ofInt 64 (y.truncate (-2 ^ 63) (2 ^ 63 - 1)))
  else .unsigned (BitVec.ofInt 64 (y.truncate 0 (2 ^ 64 - 1)))

theorem toInt_ofReal (signed : Bool) (y : Extended) :
    (ofReal signed y).toInt = if signed then y.truncate (-2 ^ 63) (2 ^ 63 - 1) else y.truncate 0 (2 ^ 64 - 1) := by
  cases signed with
  | true =>
    obtain ⟨hlo, hhi⟩ := y.truncate_mem (-2 ^ 63) (2 ^ 63 - 1) (by decide) (by decide)
    exact BitVec.toInt_ofInt_eq_self (by decide) hlo (by omega)
  | false =>
    obtain ⟨hlo, _⟩ := y.truncate_mem 0 (2 ^ 64 - 1) le_rfl (by decide)
    change ((BitVec.ofInt 64 (y.truncate 0 (2 ^ 64 - 1))).toNat : Int) = y.truncate 0 (2 ^ 64 - 1)
    rw [BitVec.toNat_ofInt]
    omega

end Wide

/-! ## Readings -/

/-- what a machine reads text into for an integer destination -/
inductive Reading where
  | word (r : Wide)
  | real (x : BitVec Precision.double.bits)

namespace Reading

/-- the readings that are tried, in order: words, the destination's own sign first, then a double -/
def ofText? (signed : Bool) (cs : List Char) : Option Reading :=
  (Wide.ofText? signed cs).map .word <|> (Numeral.parse? cs).map fun n => .real (n.pattern .double)

/-- A reading cut to a kind. A double becomes a word of the kind's sign first, and an unsigned kind takes 0 for a double
below zero. -/
def cast (k : IntKind) : Reading → BitVec k.bits
  | word r => r.cast k
  | real x =>
    if k.signed = false ∧ (Precision.double.read x).isBelowZero then 0
    else (Wide.ofReal k.signed (Precision.double.read x)).cast k

theorem cast_real (k : IntKind) (x : BitVec Precision.double.bits) : (real x).cast k = (Number.real x).toWord k := by
  rw [cast, Number.toWord, Wide.cast_eq, Wide.toInt_ofReal]
  generalize Precision.double.read x = y
  cases hk : k.signed with
  | true => simp [Number.toWord, hk]
  | false =>
    obtain ⟨hlo, -⟩ := y.truncate_mem 0 (2 ^ 64 - 1) le_rfl (by decide)
    by_cases hzero : y.isBelowZero
    · have hcut := y.truncate_of_isMinus (y.isMinus_of_isBelowZero hzero) (2 ^ 64 - 1)
      rw [if_pos ⟨rfl, hzero⟩]
      simp only [Bool.false_eq_true, if_false, hcut]
      rfl
    · rw [if_neg (by simp [hzero])]
      simp only [Bool.false_eq_true, if_false, Number.toWord, hk]
      rw [if_neg (by omega)]

/-- **What the readings give is what text converts to**, whichever of them is the one that accepts the text. -/
theorem cast_ofText? (k : IntKind) (s : String) :
    (ofText? k.signed s.toList).map (cast k) = (Number.ofText? s).map (Number.toWord k) := by
  by_cases h : ∃ n, Spells s.toList n ∧ -2 ^ 63 ≤ n ∧ n < 2 ^ 64
  · obtain ⟨n, hn, hge, hlt⟩ := h
    obtain ⟨r, hr, rfl⟩ := Wide.exists_ofText? hn hge hlt k.signed
    rw [ofText?, hr, Number.ofText?_of_spells hn hge hlt]
    exact congrArg some (r.cast_eq k)
  · have hno : Wide.ofText? k.signed s.toList = none := by
      rw [Option.eq_none_iff_forall_ne_some]
      exact fun r hr => h ((Wide.ofText?_iff k.signed).1 ⟨r, hr⟩)
    rw [ofText?, hno, Number.ofText?_of_not_spells h, Number.ofNumeral?]
    cases Numeral.parse? s.toList with
    | none => rfl
    | some m => exact congrArg some (cast_real k _)

/-- **The readings together accept the numerals**, in either order. -/
theorem ofText?_iff {cs : List Char} (signed : Bool) : (∃ r, ofText? signed cs = some r) ↔ IsNumeral cs := by
  rw [← Numeral.parse?_iff]
  constructor
  · rintro ⟨r, hr⟩
    cases hw : Wide.ofText? signed cs with
    | some word =>
      -- text that spells an integer is a numeral too
      obtain ⟨n, hn, -⟩ := (Wide.ofText?_iff signed).1 ⟨word, hw⟩
      obtain ⟨negative, hm⟩ := Numeral.parse?_of_spells hn
      exact ⟨_, hm⟩
    | none =>
      rw [ofText?, hw] at hr
      obtain ⟨m, hm, -⟩ := Option.map_eq_some_iff.1 hr
      exact ⟨m, hm⟩
  · rintro ⟨m, hm⟩
    rw [ofText?, hm]
    cases Wide.ofText? signed cs with
    | some word => exact ⟨_, rfl⟩
    | none => exact ⟨_, rfl⟩

end Reading

/-! ## What each kind accepts -/

/-- the words for truth values; the digits for them are numerals -/
def truthWords : List String := ["t", "T", "true", "True", "TRUE", "f", "F", "false", "False", "FALSE"]

/-- the text that can be converted to a kind -/
def ScalarKind.Accepts : ScalarKind → String → Prop
  | int _, s | float _, s => IsNumeral s.toList
  | bool, s => IsNumeral s.toList ∨ s ∈ truthWords
  | string, _ => True

instance (k : ScalarKind) (s : String) : Decidable (k.Accepts s) := by
  cases k <;> unfold ScalarKind.Accepts <;> infer_instance

namespace Scalar

variable {s : String}

theorem ofNumeral?_iff : (∃ n, Number.ofNumeral? s = some n) ↔ IsNumeral s.toList := by
  rw [← Numeral.parse?_iff, Number.ofNumeral?]
  cases Numeral.parse? s.toList <;> simp

theorem exists_reading {k : IntKind} {n : Number} (h : Number.ofText? s = some n) :
    ∃ r, Reading.ofText? k.signed s.toList = some r ∧ r.cast k = n.toWord k := by
  have hcast := Reading.cast_ofText? k s
  rw [h, Option.map_some, Option.map_eq_some_iff] at hcast
  exact hcast

theorem ofText?_iff : (∃ n, Number.ofText? s = some n) ↔ IsNumeral s.toList := by
  rw [← Reading.ofText?_iff true]
  have hcast := congrArg Option.isSome (Reading.cast_ofText? ⟨true, .w64⟩ s)
  rw [Option.isSome_map, Option.isSome_map] at hcast
  rw [← Option.isSome_iff_exists, ← Option.isSome_iff_exists, hcast]

/-- of the spellings of the truth values, the digits are numerals -/
theorem truth?_iff : (∃ b, truth? s = some b) ∨ IsNumeral s.toList ↔ IsNumeral s.toList ∨ s ∈ truthWords := by
  have hwords : ∀ w ∈ ["1", "t", "T", "TRUE", "true", "True"] ++ ["0", "f", "F", "FALSE", "false", "False"],
      IsNumeral w.toList ∨ w ∈ truthWords := by decide
  have htruth : ∀ w ∈ truthWords, (truth? w).isSome = true := by decide
  constructor
  · rintro (⟨b, hb⟩ | h)
    · apply hwords
      unfold truth? at hb
      split_ifs at hb with htrue hfalse
      · exact List.mem_append_left _ htrue
      · exact List.mem_append_right _ hfalse
    · exact .inl h
  · rintro (h | h)
    · exact .inr h
    · exact .inl (Option.isSome_iff_exists.1 (htruth s h))

theorem convert?_string_iff (k : ScalarKind) : (∃ r, (string s).convert? k = some r) ↔ k.Accepts s := by
  cases k with
  | int k =>
    rw [ScalarKind.Accepts, ← ofText?_iff, convert?, integerReading?]
    cases Number.ofText? s <;> simp
  | float p =>
    rw [ScalarKind.Accepts, ← ofNumeral?_iff, convert?, realReading?]
    cases Number.ofNumeral? s <;> simp
  | bool =>
    rw [ScalarKind.Accepts, ← truth?_iff, ← ofNumeral?_iff, convert?, truthReading?]
    cases truth? s <;> cases Number.ofNumeral? s <;> simp
  | string => exact iff_of_true ⟨_, rfl⟩ trivial

end Scalar

/-! ## Assignments -/

namespace Wrapper

/-- **All numeric kinds accept the same text.** On every writable wrapper on a scalar, text is assigned iff it is a
numeral, whichever numeric kind the contents are of; truth values accept a few words besides, and contents of text take
any text as it is. An integer kind tries its readings in order, and is left the one that accepts the text, cut. Other
text is refused: the fault quotes it and names the kind of the contents, which are what a reset leaves. -/
theorem assign_text {S : Schema} {w : Wrapper} (hw : Built S w) {t : Ty} (ht : w.declared = some t) {k : ScalarKind}
    (hk : t.resolved = .scalar k) {src : Value} {s : String} (hsrc : src.concrete.scalar? = some (.string s)) :
    let after := (w.assign S src).value
    (after.1 = .ok () ↔ k.Accepts s) ∧
      (¬k.Accepts s → after = (.error (.coercion (quoted s) k.name), (w.reset S).value.2)) ∧
      (k = .string → after.2.contents? = some (.scalar (.string s))) ∧
      ∀ j, k = .int j → IsNumeral s.toList → ∃ r, Reading.ofText? j.signed s.toList = some r ∧
        after.2.contents? = some (.scalar (.int j (r.cast j))) := by
  intro after
  have hself : (Scalar.string s).kind = k → (Scalar.string s).convert? k = some (.string s) := by
    rintro rfl
    rfl
  have hassign : w.assign S src = _ := assign_shown hw ht hk hsrc hself
  have haccepts := Scalar.convert?_string_iff (s := s) k
  obtain ⟨st, -, h, rfl⟩ := hw.holds_declared ht
  have hcontents : ∀ r, (Scalar.string s).convert? k = some r → after.2.contents? = some (.scalar r) := by
    intro r hr
    simp only [after, hassign, hr]
    refine h.contents_put ?_
    rw [hk, Value.ty, Scalar.kind_of_convert? hr]
  refine ⟨?_, ?_, ?_, ?_⟩
  · rw [← haccepts]
    cases hr : (Scalar.string s).convert? k with
    | some r => simp [after, hassign, hr, Outcome.ok]
    | none => simp [after, hassign, hr, Outcome.fault]
  · intro hno
    cases hr : (Scalar.string s).convert? k with
    | some r => exact absurd (haccepts.1 ⟨r, hr⟩) hno
    | none =>
      simp only [after, hassign, hr, reset_eq h]
      rfl
  · rintro rfl
    exact hcontents _ rfl
  · rintro j rfl hs
    obtain ⟨n, hn⟩ := Scalar.ofText?_iff.2 hs
    obtain ⟨r, hread, hcut⟩ := Scalar.exists_reading (k := j) hn
    refine ⟨r, hread, ?_⟩
    rw [hcut]
    refine hcontents _ ?_
    rw [Scalar.convert?, Scalar.integerReading?, hn]
    rfl

/-- what text leaves in a byte: past both words there is a double, and an exponent without digits is refused -/
theorem assign_text_byte :
    let k : IntKind := ⟨false, .w8⟩
    let w := (own Sample.schema (.scalar (.ofInt k 5))).value
    let big := (w.assign Sample.schema (.literal "18446744073709551616")).value
    let bare := (w.assign Sample.schema (.literal "1e")).value
    big.1 = .ok () ∧ big.2.contents? = some (.scalar (.ofInt k 255)) ∧
      bare = (.error (.coercion "\"1e\"" "u8"), (w.reset Sample.schema).value.2) := by
  intro k w big bare
  have hw : Built Sample.schema w := .own (.scalar _)
  have htext (s : String) : (Value.literal s).concrete.scalar? = some (.string s) := rfl
  obtain ⟨hok, -, -, hreading⟩ := assign_text hw rfl rfl (htext "18446744073709551616") (k := .int k)
  obtain ⟨-, hrefused, -⟩ := assign_text hw rfl rfl (htext "1e") (k := .int k)
  obtain ⟨r, hr, hcontents⟩ := hreading k rfl (by decide)
  have hread : Reading.ofText? k.signed "18446744073709551616".toList = some (.real 0x43f0000000000000) := rfl
  have hcast : Scalar.int k ((Reading.real 0x43f0000000000000).cast k) = .ofInt k 255 := by decide
  obtain rfl := Option.some.inj (hread.symm.trans hr)
  rw [hcast] at hcontents
  exact ⟨hok.2 (by decide), hcontents, hrefused (by decide)⟩

end Wrapper

end DynAssign
