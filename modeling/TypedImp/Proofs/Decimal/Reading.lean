import Mathlib.Data.List.Basic
import Mathlib.Tactic.Common
import Mathlib.Tactic.Ring
import TypedImp.Decimal.Text

/-!
# Numbers are read back from their text

The text of a decimal is that of a whole number, or it has a point or an exponent and is read back
as the decimal (`readExact_toText`). So numbers of one class with one text are one number
(`toText_inj`, `toString_inj`).
-/

namespace TypedImp

open Nat (ofDigitChars)

namespace Text

def Digits (cs : List Char) : Prop :=
  ∀ c ∈ cs, c.isDigit = true

theorem digits_toDigits (n : Nat) : Digits (Nat.toDigits 10 n) :=
  fun _ hc => Nat.isDigit_of_mem_toDigits (by decide) (by decide) hc

theorem digits_replicate (k : Nat) : Digits (List.replicate k '0') := by
  intro c hc
  rw [List.eq_of_mem_replicate hc]
  rfl

theorem Digits.append {cs ds : List Char} (h : Digits cs) (h' : Digits ds) : Digits (cs ++ ds) := by
  intro c hc
  rcases List.mem_append.1 hc with hc | hc
  · exact h c hc
  · exact h' c hc

theorem Digits.not_mem {cs : List Char} (h : Digits cs) {c : Char} (hc : c.isDigit = false) :
    c ∉ cs := by
  intro hmem
  rw [h c hmem] at hc
  cases hc

theorem readDigits_from {cs : List Char} (h : Digits cs) (value : Nat) :
    cs.foldlM (fun value c => do return 10 * value + (← digit? c)) value =
      some (ofDigitChars 10 cs value) := by
  induction cs generalizing value with
  | nil => rfl
  | cons c cs ih =>
    have hc : digit? c = some (c.toNat - '0'.toNat) := if_pos (h c (.head _))
    rw [List.foldlM_cons, hc, Nat.ofDigitChars_cons]
    exact ih (fun d hd => h d (.tail _ hd)) _

theorem readDigits_eq {cs : List Char} (h : Digits cs) :
    readDigits cs = some (ofDigitChars 10 cs 0) :=
  readDigits_from h 0

def sign (negative : Bool) : List Char :=
  if negative then ['-'] else []

def signed (negative : Bool) (n : Nat) : Int :=
  if negative then -n else n

theorem signed_natAbs (n : Int) : signed (decide (n < 0)) n.natAbs = n := by
  rw [signed]
  split_ifs with h
  · have := of_decide_eq_true h
    omega
  · have := of_decide_eq_false (Bool.not_eq_true _ ▸ h)
    omega

theorem readSigned_sign {cs : List Char} (h : Digits cs) (hne : cs ≠ []) (negative : Bool) :
    readSigned (sign negative ++ cs) = some (signed negative (ofDigitChars 10 cs 0)) := by
  cases negative with
  | true =>
    rw [readSigned]
    show (readDigits cs >>= _) = _
    rw [readDigits_eq h]
    rfl
  | false =>
    obtain ⟨c, cs, rfl⟩ := List.exists_cons_of_ne_nil hne
    have hsplit : splitSign (c :: cs) = (false, c :: cs) := by
      rw [splitSign.eq_def]
      split
      · rename_i heq
        cases heq
        exact absurd (h _ (.head _)) (by decide)
      · rename_i heq
        cases heq
        exact absurd (h _ (.head _)) (by decide)
      · rfl
    rw [sign, if_neg Bool.false_ne_true, List.nil_append, readSigned, hsplit]
    show (readDigits (c :: cs) >>= _) = _
    rw [readDigits_eq h]
    rfl

theorem toList_toString (n : Int) :
    (toString n).toList = sign (decide (n < 0)) ++ Nat.toDigits 10 n.natAbs := by
  rw [Int.toString_eq_repr, Int.repr_eq_if]
  split_ifs with h
  · rw [sign, if_neg (by simpa using h), Nat.toList_repr]
    congr 2
    omega
  · rw [sign, if_pos (by simpa using h), String.toList_append, Nat.toList_repr]
    have : (-n).toNat = n.natAbs := by omega
    rw [this]
    rfl

theorem readSigned_toString (n : Int) : readSigned (toString n).toList = some n := by
  rw [toList_toString, readSigned_sign (digits_toDigits _) Nat.toDigits_ne_nil,
    Nat.ofDigitChars_ten_toDigits, signed_natAbs]

theorem toString_inj {m n : Int} (h : toString m = toString n) : m = n := by
  have hread := readSigned_toString m
  rw [h, readSigned_toString n] at hread
  exact (Option.some.inj hread).symm

theorem toDigits_mul_pow {n : Nat} (h : 0 < n) : ∀ k : Nat,
    Nat.toDigits 10 n ++ List.replicate k '0' = Nat.toDigits 10 (n * 10 ^ k)
  | 0 => by simp
  | k + 1 => by
    have hpos : 0 < n * 10 ^ k := Nat.mul_pos h (Nat.pow_pos (by decide))
    have hmul : n * 10 ^ (k + 1) = 10 * (n * 10 ^ k) + 0 := by ring
    rw [List.replicate_succ', ← List.append_assoc, toDigits_mul_pow h k, hmul,
      ← Nat.toDigits_append_toDigits (by decide) hpos (by decide), Nat.toDigits_zero]

end Text

namespace Decimal

open Text

/-- Reads a decimal with a scale of any size. -/
def readExact (cs : List Char) : Option Decimal := do
  let base ← readPositional (cs.takeWhile (!isExponentMark ·))
  match (cs.dropWhile (!isExponentMark ·)).drop 1 with
  | [] => return base
  | exponent => return { base with scale := base.scale - (← readSigned exponent) }

/-- The text of a number in parts: its sign, the digits in front of the point and behind it, and the
mark and the number of an exponent. -/
structure Numeral where
  negative : Bool
  whole : List Char
  places : List Char
  exponent : Option (Char × Int)

namespace Numeral

def fraction : List Char → List Char
  | [] => []
  | places => '.' :: places

theorem fraction_of_ne_nil {places : List Char} (h : places ≠ []) :
    fraction places = '.' :: places := by
  cases places with
  | nil => exact (h rfl).elim
  | cons p ps => rfl

def exponentChars : Option (Char × Int) → List Char
  | none => []
  | some (mark, n) => mark :: (signedText n).toList

def chars (n : Numeral) : List Char :=
  sign n.negative ++ n.whole ++ fraction n.places ++ exponentChars n.exponent

def value (n : Numeral) : Decimal where
  digits := signed n.negative (ofDigitChars 10 (n.whole ++ n.places) 0)
  scale := n.places.length - (n.exponent.map Prod.snd).getD 0

/-- Digits are digits, there is one in front of the point, and an exponent has a mark. -/
structure Valid (n : Numeral) : Prop where
  whole_ne_nil : n.whole ≠ []
  whole : Digits n.whole
  places : Digits n.places
  mark : ∀ e ∈ n.exponent, isExponentMark e.1 = true

variable {n : Numeral}

def mantissa (n : Numeral) : List Char :=
  sign n.negative ++ n.whole ++ fraction n.places

theorem chars_eq (n : Numeral) : n.chars = n.mantissa ++ exponentChars n.exponent :=
  rfl

theorem eq_of_mem_sign {negative : Bool} {c : Char} (h : c ∈ sign negative) : c = '-' := by
  cases negative <;> simp_all [sign]

theorem mem_mantissa (h : n.Valid) {c : Char} (hc : c ∈ n.mantissa) :
    c = '-' ∨ c = '.' ∨ c.isDigit = true := by
  rw [mantissa, List.mem_append, List.mem_append] at hc
  rcases hc with (hc | hc) | hc
  · exact .inl (eq_of_mem_sign hc)
  · exact .inr (.inr (h.whole c hc))
  · cases hp : n.places with
    | nil =>
      rw [hp] at hc
      cases hc
    | cons p ps =>
      rw [hp] at hc
      rcases List.mem_cons.1 hc with hc | hc
      · exact .inr (.inl hc)
      · exact .inr (.inr (h.places c (hp ▸ hc)))

theorem point_not_mem (h : n.Valid) : '.' ∉ sign n.negative ++ n.whole := by
  rw [List.mem_append]
  rintro (hc | hc)
  · cases eq_of_mem_sign hc
  · exact h.whole.not_mem rfl hc

theorem not_mark_of_mem_mantissa (h : n.Valid) {c : Char} (hc : c ∈ n.mantissa) :
    isExponentMark c = false := by
  cases hm : isExponentMark c with
  | false => rfl
  | true =>
    simp only [isExponentMark, Bool.or_eq_true, beq_iff_eq] at hm
    rcases hm with rfl | rfl <;> simpa using mem_mantissa h hc

theorem readPositional_mantissa (h : n.Valid) :
    readPositional n.mantissa = some ⟨n.value.digits, n.places.length⟩ := by
  have hkept : n.mantissa.filter (· != '_') = n.mantissa := by
    rw [List.filter_eq_self]
    intro c hc
    rw [bne_iff_ne]
    rintro rfl
    simpa using mem_mantissa h hc
  have hall : ∀ c ∈ sign n.negative ++ n.whole, (c != '.') = true := by
    intro c hc
    rw [bne_iff_ne]
    rintro rfl
    exact point_not_mem h hc
  have hwhole : n.mantissa.takeWhile (· != '.') = sign n.negative ++ n.whole := by
    rw [mantissa, List.takeWhile_append_of_pos hall]
    cases n.places <;> simp [fraction]
  have hplaces : (n.mantissa.dropWhile (· != '.')).drop 1 = n.places := by
    rw [mantissa, List.dropWhile_append_of_pos hall]
    cases n.places <;> simp [fraction]
  rw [readPositional, hkept, hwhole, hplaces]
  show (readSigned _ >>= _) = _
  rw [List.append_assoc, readSigned_sign (h.whole.append h.places)
    (List.append_ne_nil_of_left_ne_nil h.whole_ne_nil _)]
  rfl

theorem readSigned_signedText (k : Int) : readSigned (signedText k).toList = some k := by
  rw [signedText]
  split_ifs with h
  · exact readSigned_toString k
  · rw [String.toList_append, toList_toString, sign, if_neg (by simpa using h), List.nil_append]
    show (readDigits (Nat.toDigits 10 k.natAbs) >>= _) = _
    rw [readDigits_eq (digits_toDigits _), Nat.ofDigitChars_ten_toDigits]
    show some (k.natAbs : Int) = some k
    congr 1
    omega

theorem signedText_ne_nil (k : Int) : (signedText k).toList ≠ [] := by
  rw [signedText]
  split_ifs
  · rw [toList_toString]
    exact List.append_ne_nil_of_right_ne_nil _ Nat.toDigits_ne_nil
  · rw [String.toList_append]
    exact List.append_ne_nil_of_left_ne_nil (by decide) _

theorem readExact_chars (h : n.Valid) : readExact n.chars = some n.value := by
  have hall : ∀ c ∈ n.mantissa, (!isExponentMark c) = true := fun c hc => by
    rw [not_mark_of_mem_mantissa h hc]
    rfl
  rw [readExact, chars_eq, List.takeWhile_append_of_pos hall, List.dropWhile_append_of_pos hall]
  cases he : n.exponent with
  | none =>
    rw [exponentChars, List.takeWhile_nil, List.append_nil, readPositional_mantissa h]
    simp [value, he]
  | some e =>
    obtain ⟨mark, k⟩ := e
    have hmark : isExponentMark mark = true := h.mark _ he
    rw [exponentChars, List.takeWhile_cons_of_neg (by simp [hmark]),
      List.dropWhile_cons_of_neg (by simp [hmark]), List.append_nil, readPositional_mantissa h]
    obtain ⟨c, cs, hcs⟩ := List.exists_cons_of_ne_nil (signedText_ne_nil k)
    have hread : readSigned (c :: cs) = some k := hcs ▸ readSigned_signedText k
    show (match (signedText k).toList with
      | [] => some _
      | exponent => (readSigned exponent >>= _)) = _
    rw [hcs]
    show (readSigned (c :: cs) >>= _) = _
    rw [hread]
    simp [value, he]

def ofInt (k : Int) : Numeral :=
  ⟨decide (k < 0), Nat.toDigits 10 k.natAbs, [], none⟩

theorem valid_ofInt (k : Int) : (ofInt k).Valid :=
  ⟨Nat.toDigits_ne_nil, digits_toDigits _, fun _ h => absurd h List.not_mem_nil, nofun⟩

theorem chars_ofInt (k : Int) : (ofInt k).chars = (toString k).toList := by
  rw [toList_toString]
  simp [chars, ofInt, fraction, exponentChars]

/-! ### The characters of numbers -/

def isNumberChar (c : Char) : Bool :=
  c.isDigit || c ∈ ['-', '+', '.', 'e', 'E']

theorem mem_signedText {k : Int} {c : Char} (h : c ∈ (signedText k).toList) :
    c = '-' ∨ c = '+' ∨ c.isDigit = true := by
  rw [signedText] at h
  split_ifs at h
  · rw [toList_toString, List.mem_append] at h
    rcases h with h | h
    · exact .inl (eq_of_mem_sign h)
    · exact .inr (.inr (digits_toDigits _ c h))
  · rw [String.toList_append, toList_toString, List.mem_append, List.mem_append] at h
    rcases h with h | h | h
    · exact .inr (.inl (List.mem_singleton.1 h))
    · exact .inl (eq_of_mem_sign h)
    · exact .inr (.inr (digits_toDigits _ c h))

theorem mem_exponentChars (h : n.Valid) {c : Char} (hc : c ∈ exponentChars n.exponent) :
    c = 'e' ∨ c = 'E' ∨ c = '-' ∨ c = '+' ∨ c.isDigit = true := by
  cases he : n.exponent with
  | none =>
    rw [he] at hc
    cases hc
  | some e =>
    obtain ⟨mark, k⟩ := e
    have hmark : isExponentMark mark = true := h.mark _ he
    rw [isExponentMark, Bool.or_eq_true, beq_iff_eq, beq_iff_eq] at hmark
    rw [he, exponentChars, List.mem_cons] at hc
    rcases hc with rfl | hc
    · rcases hmark with rfl | rfl
      · exact .inl rfl
      · exact .inr (.inl rfl)
    · exact .inr (.inr (mem_signedText hc))

theorem isNumberChar_of_mem (h : n.Valid) {c : Char} (hc : c ∈ n.chars) :
    isNumberChar c = true := by
  rw [chars_eq, List.mem_append] at hc
  rcases hc with hc | hc
  · rcases mem_mantissa h hc with rfl | rfl | hd
    · rfl
    · rfl
    · rw [isNumberChar, hd, Bool.true_or]
  · rcases mem_exponentChars h hc with rfl | rfl | rfl | rfl | hd
    · rfl
    · rfl
    · rfl
    · rfl
    · rw [isNumberChar, hd, Bool.true_or]

theorem exists_head (h : n.Valid) :
    ∃ c cs, n.chars = c :: cs ∧ (c = '-' ∨ c.isDigit = true) := by
  obtain ⟨w, ws, hw⟩ := List.exists_cons_of_ne_nil h.whole_ne_nil
  have hd : w.isDigit = true := h.whole w (hw ▸ .head _)
  rw [chars, hw]
  cases n.negative with
  | true => exact ⟨'-', _, rfl, .inl rfl⟩
  | false => exact ⟨w, _, rfl, .inr hd⟩

theorem digit_of_point (h : n.Valid) {front back : List Char}
    (hn : n.chars = front ++ '.' :: back) : ∃ c cs, back = c :: cs ∧ c.isDigit = true := by
  have hback : '.' ∉ n.places ++ exponentChars n.exponent := by
    rw [List.mem_append]
    rintro (hc | hc)
    · exact h.places.not_mem rfl hc
    · simpa using mem_exponentChars h hc
  rw [chars, List.append_assoc] at hn
  cases hp : n.places with
  | nil =>
    have hmem :
        '.' ∈ sign n.negative ++ n.whole ++ (fraction n.places ++ exponentChars n.exponent) :=
      hn ▸ List.mem_append_right _ (.head _)
    rw [hp] at hmem hback
    rcases List.mem_append.1 hmem with hmem | hmem
    · exact (point_not_mem h hmem).elim
    · exact (hback hmem).elim
  | cons p ps =>
    rw [hp] at hn hback
    -- the only point is the one in front of the places
    rw [fraction_of_ne_nil (List.cons_ne_nil p ps), List.cons_append,
      List.append_cons_inj_of_notMem (point_not_mem h) hback] at hn
    obtain ⟨-, -, rfl⟩ := hn
    exact ⟨p, _, rfl, h.places p (hp ▸ .head _)⟩

end Numeral

theorem sign_eq_toList (d : Decimal) :
    (if d.digits < 0 then "-" else "").toList = sign (decide (d.digits < 0)) := by
  split_ifs with h <;> simp [sign, h]

theorem toList_scientificText {cs : List Char} (h : cs ≠ []) :
    (scientificText cs).toList = cs.take 1 ++ Numeral.fraction (cs.drop 1) := by
  rcases cs with _ | ⟨c, _ | ⟨d, cs⟩⟩
  · exact (h rfl).elim
  · simp [scientificText, Numeral.fraction]
  · simp [scientificText, Numeral.fraction]

theorem toText_of_zero {d : Decimal} (h : d.digits = 0) : d.toText = toString (0 : Int) := by
  rw [toText, h]
  rfl

theorem toList_toText {d : Decimal} (h : d.digits ≠ 0) :
    d.toText.toList = sign (decide (d.digits < 0)) ++
      (unsignedText (Nat.toDigits 10 d.digits.natAbs) d.scale).toList := by
  rw [toText, String.toList_append, sign_eq_toList, if_neg h]

theorem toList_toString_mul {m : Int} (h : m ≠ 0) (k : Nat) :
    (toString (m * (10 ^ k : Nat))).toList =
      sign (decide (m < 0)) ++ (Nat.toDigits 10 m.natAbs ++ List.replicate k '0') := by
  have hk : 0 < (10 ^ k : Nat) := Nat.pow_pos (by decide)
  have hsign : (m * (10 ^ k : Nat) < 0) ↔ m < 0 := by
    constructor
    · intro hm
      by_contra hneg
      have := Int.mul_nonneg (Int.not_lt.1 hneg) (Int.natCast_nonneg (10 ^ k))
      omega
    · exact fun hm => Int.mul_neg_of_neg_of_pos hm (by omega)
  rw [toList_toString, toDigits_mul_pow (by omega), Int.natAbs_mul, Int.natAbs_natCast]
  simp only [hsign]

/-- The characters are those of a number in parts that mean the decimal. -/
def Written (d : Decimal) (cs : List Char) : Prop :=
  ∃ n : Numeral, n.Valid ∧ cs = n.chars ∧ n.value = d

theorem value_eq {n : Numeral} {d : Decimal} (hd : n.value.digits = d.digits)
    (hs : n.value.scale = d.scale) : n.value = d := by
  obtain ⟨digits, scale⟩ := d
  exact Decimal.mk.injEq .. ▸ ⟨hd, hs⟩

section

variable {d : Decimal} {ds : List Char} (hdigits : Digits ds) (hne : ds ≠ [])
  (hvalue : ofDigitChars 10 ds 0 = d.digits.natAbs)
include hdigits hne hvalue

theorem written_scientific : d.Written (sign (decide (d.digits < 0)) ++
    (scientificText ds ++ "E" ++ signedText (ds.length - 1 - d.scale)).toList) := by
  have hpos : 0 < ds.length := List.length_pos_iff.2 hne
  refine ⟨⟨decide (d.digits < 0), ds.take 1, ds.drop 1, some ('E', ds.length - 1 - d.scale)⟩,
    ⟨?_, ?_, ?_, ?_⟩, ?_, value_eq ?_ ?_⟩
  · simpa using hne
  · exact fun c hc => hdigits c (List.mem_of_mem_take hc)
  · exact fun c hc => hdigits c (List.mem_of_mem_drop hc)
  · rintro _ ⟨⟩
    rfl
  · rw [String.toList_append, String.toList_append, toList_scientificText hne]
    simp [Numeral.chars, Numeral.exponentChars]
  · simp only [Numeral.value, List.take_append_drop, hvalue, signed_natAbs]
  · simp only [Numeral.value, List.length_drop, Option.map_some, Option.getD_some]
    omega

theorem written_exponent : d.Written (sign (decide (d.digits < 0)) ++
    (String.ofList ds ++ "e" ++ signedText (-d.scale)).toList) := by
  refine ⟨⟨decide (d.digits < 0), ds, [], some ('e', -d.scale)⟩, ⟨hne, hdigits, ?_, ?_⟩, ?_,
    value_eq ?_ ?_⟩
  · exact fun _ hc => absurd hc List.not_mem_nil
  · rintro _ ⟨⟩
    rfl
  · simp [Numeral.chars, Numeral.exponentChars, Numeral.fraction]
  · simp only [Numeral.value, List.append_nil, hvalue, signed_natAbs]
  · simp [Numeral.value]

theorem written_point (hpos : 0 < d.scale) (hlt : d.scale < ds.length) :
    d.Written (sign (decide (d.digits < 0)) ++
      (String.ofList (ds.take (ds.length - d.scale).toNat ++
        '.' :: ds.drop (ds.length - d.scale).toNat)).toList) := by
  have hdrop : ds.drop (ds.length - d.scale).toNat ≠ [] := by
    rw [ne_eq, List.drop_eq_nil_iff]
    omega
  refine ⟨⟨decide (d.digits < 0), ds.take (ds.length - d.scale).toNat,
    ds.drop (ds.length - d.scale).toNat, none⟩, ⟨?_, ?_, ?_, nofun⟩, ?_, value_eq ?_ ?_⟩
  · simp only [ne_eq, List.take_eq_nil_iff, hne, or_false]
    omega
  · exact fun c hc => hdigits c (List.mem_of_mem_take hc)
  · exact fun c hc => hdigits c (List.mem_of_mem_drop hc)
  · simp [Numeral.chars, Numeral.exponentChars, Numeral.fraction_of_ne_nil hdrop]
  · simp only [Numeral.value, List.take_append_drop, hvalue, signed_natAbs]
  · simp only [Numeral.value, List.length_drop, Option.map_none, Option.getD_none]
    omega

theorem written_zeros (hle : ds.length ≤ d.scale) :
    d.Written (sign (decide (d.digits < 0)) ++
      (String.ofList
        ('0' :: '.' :: List.replicate (d.scale - ds.length).toNat '0' ++ ds)).toList) := by
  have happend : List.replicate (d.scale - ds.length).toNat '0' ++ ds ≠ [] :=
    List.append_ne_nil_of_right_ne_nil _ hne
  refine ⟨⟨decide (d.digits < 0), ['0'],
      List.replicate (d.scale - ds.length).toNat '0' ++ ds, none⟩,
    ⟨List.cons_ne_nil _ _, ?_, (digits_replicate _).append hdigits, nofun⟩, ?_, value_eq ?_ ?_⟩
  · exact digits_replicate 1
  · rw [Numeral.chars, Numeral.fraction_of_ne_nil happend]
    simp [Numeral.exponentChars]
  · simp only [Numeral.value]
    rw [List.singleton_append, ← List.cons_append, ← List.replicate_succ, Nat.ofDigitChars_append,
      Nat.ofDigitChars_replicate_zero, Nat.mul_zero, hvalue, signed_natAbs]
  · simp only [Numeral.value, List.length_append, List.length_replicate, Option.map_none,
      Option.getD_none]
    omega

end

/-- A decimal is written as a whole number, or as itself. -/
theorem written_or (d : Decimal) :
    (∃ n : Int, d.toText = toString n) ∨ d.Written d.toText.toList := by
  by_cases hzero : d.digits = 0
  · exact .inl ⟨0, toText_of_zero hzero⟩
  have htext := toList_toText hzero
  have hwhole := toList_toString_mul hzero (-d.scale).toNat
  have hdigits := digits_toDigits d.digits.natAbs
  have hne : Nat.toDigits 10 d.digits.natAbs ≠ [] := Nat.toDigits_ne_nil
  have hvalue : ofDigitChars 10 (Nat.toDigits 10 d.digits.natAbs) 0 = d.digits.natAbs :=
    Nat.ofDigitChars_ten_toDigits
  generalize Nat.toDigits 10 d.digits.natAbs = ds at hdigits hne hvalue htext hwhole
  rw [htext]
  rw [unsignedText] at htext ⊢
  dsimp only at htext ⊢
  split_ifs at htext ⊢ with h₁ h₂ h₃ h₄
  · exact .inr (written_scientific hdigits hne hvalue)
  · exact .inr (written_exponent hdigits hne hvalue)
  · left
    refine ⟨d.digits * (10 ^ (-d.scale).toNat : Nat), String.toList_inj.1 ?_⟩
    rw [htext, hwhole, String.toList_ofList]
  · exact .inr (written_point hdigits hne hvalue (by omega) h₄)
  · exact .inr (written_zeros hdigits hne hvalue (by omega))

/-- A decimal that is not written as a whole number is read back from its text. -/
theorem readExact_toText {d : Decimal} (h : ∀ n : Int, d.toText ≠ toString n) :
    readExact d.toText.toList = some d := by
  rcases written_or d with ⟨n, hn⟩ | ⟨n, hn, hchars, hvalue⟩
  · exact (h n hn).elim
  · rw [hchars, Numeral.readExact_chars hn, hvalue]

theorem toText_inj {d e : Decimal} (hd : ∀ n : Int, d.toText ≠ toString n)
    (he : ∀ n : Int, e.toText ≠ toString n) (h : d.toText = e.toText) : d = e := by
  have hread := readExact_toText hd
  rw [h, readExact_toText he] at hread
  exact (Option.some.inj hread).symm

end Decimal

end TypedImp
