import Mathlib.Data.List.Chain
import TypedImp.Proofs.Decimal.Reading
import TypedImp.Proofs.Render.Scanner
import TypedImp.Render.Expr

/-!
# Tokens

The text of an expression is a row of tokens. Where words and literals stand apart and are not
taken for each other, the row can be told from its text (`row_inj`).
-/

namespace TypedImp

namespace Render

theorem operator_inj {a b : Operator} (h : operator a = operator b) : a = b := by
  have hall : ∀ a : Operator, a ∈ Operator.all := by
    rintro (_ | _ | _) <;> rename_i a <;> cases a <;> decide
  have hinj : ∀ a ∈ Operator.all, ∀ b ∈ Operator.all, operator a = operator b → a = b := by
    decide
  exact hinj a (hall a) b (hall b) h

theorem space_not_mem_operator (a : Operator) : ' ' ∉ (operator a).toList := by
  rcases a with a | a | a <;> cases a <;> decide

/-! ## Tokens -/

/-- What the text of an expression is made of. -/
inductive Token where
  | literal (value : Literal)
  | word (spelling : String)
  | dot
  | opening
  | closing
  | comma
  | operator (operator : Operator)

/-- What a token can be told to be by its first character. -/
inductive Kind where
  | word
  | number
  | character
  | string
  | dot
  | opening
  | closing
  | comma
  | operator
  deriving DecidableEq

namespace Kind

def ofChar (c : Char) : Kind :=
  if c = '.' then dot
  else if c = '(' then opening
  else if c = ')' then closing
  else if c = ',' then comma
  else if c = ' ' then operator
  else if c = stringDelimiter then string
  else if c = characterDelimiter then character
  else if c = '-' || c.isDigit then number
  else word

def isAtom : Kind → Bool
  | word | number | character | string => true
  | _ => false

end Kind

/-- A spelling without the characters that end a word, and not that of a literal. -/
def isWord (spelling : String) : Bool :=
  (spelling.toList.head?.map Kind.ofChar = some .word) &&
    spelling.toList.all (fun c => c ∉ ['.', '(', ')', ',', ' ']) &&
    spelling ∉ ["null", "true", "false"]

namespace Token

def chars : Token → List Char
  | literal value => (Render.literal value).toList
  | word spelling => spelling.toList
  | dot => ['.']
  | opening => ['(']
  | closing => [')']
  | comma => [',', ' ']
  | operator op => ' ' :: (Render.operator op).toList ++ [' ']

def kind : Token → Kind
  | literal .nil | literal (.boolean _) | word _ => .word
  | literal (.integer _) | literal (.decimal _) => .number
  | literal (.character _) => .character
  | literal (.string _) => .string
  | dot => .dot
  | opening => .opening
  | closing => .closing
  | comma => .comma
  | operator _ => .operator

end Token

end Render

/-- No whole number is written as this decimal. -/
def Decimal.Apart (d : Decimal) : Prop :=
  ∀ n : Int, d.toText ≠ toString n

def Literal.Apart (value : Literal) : Prop :=
  ∀ d, value = .decimal d → d.Apart

namespace Render

namespace Token

/-- Words are words, and decimals are not written as whole numbers are. -/
def Valid : Token → Prop
  | literal value => value.Apart
  | word spelling => isWord spelling = true
  | _ => True

/-- A token that does not run into the one before it: words and literals stand apart, and behind
a dot there is a word. -/
def Follows (t next : Token) : Prop :=
  (t.kind.isAtom = true → next.kind.isAtom = false) ∧ (t = dot → ∃ spelling, next = word spelling)

variable {t t' : Token}

theorem exists_numeral (h : t.Valid) (hk : t.kind = .number) :
    ∃ n : Decimal.Numeral, n.Valid ∧ t.chars = n.chars := by
  cases t with
  | literal value =>
    cases value with
    | integer n =>
      exact ⟨.ofInt n, Decimal.Numeral.valid_ofInt n, (Decimal.Numeral.chars_ofInt n).symm⟩
    | decimal d =>
      rcases d.written_or with ⟨n, hn⟩ | ⟨n, hn, hchars, -⟩
      · exact (h d rfl n hn).elim
      · exact ⟨n, hn, hchars⟩
    | _ => cases hk
  | _ => cases hk

theorem ofChar_of_number {c : Char} (h : c = '-' ∨ c.isDigit = true) : Kind.ofChar c = .number := by
  have hne : ∀ d : Char, d.isDigit = false → d ≠ '-' → c ≠ d := by
    rintro d hd hm rfl
    rcases h with h | h
    · exact hm h
    · rw [hd] at h
      cases h
  rw [Kind.ofChar]
  simp only [hne '.' (by decide) (by decide), hne '(' (by decide) (by decide),
    hne ')' (by decide) (by decide), hne ',' (by decide) (by decide),
    hne ' ' (by decide) (by decide), hne stringDelimiter (by decide) (by decide),
    hne characterDelimiter (by decide) (by decide), if_false]
  rcases h with rfl | h
  · rfl
  · simp [h]

theorem exists_cons (h : t.Valid) : ∃ c cs, t.chars = c :: cs ∧ Kind.ofChar c = t.kind := by
  by_cases hk : t.kind = .number
  · obtain ⟨n, hn, hchars⟩ := exists_numeral h hk
    obtain ⟨c, cs, hcs, hc⟩ := Decimal.Numeral.exists_head hn
    exact ⟨c, cs, hchars.trans hcs, (ofChar_of_number hc).trans hk.symm⟩
  cases t with
  | word spelling =>
    simp only [Valid, isWord, Bool.and_eq_true, decide_eq_true_eq, Option.map_eq_some_iff] at h
    obtain ⟨⟨⟨c, hc, hword⟩, -⟩, -⟩ := h
    obtain ⟨cs, hcs⟩ := List.head?_eq_some_iff.1 hc
    exact ⟨c, cs, hcs, hword⟩
  | literal value =>
    cases value with
    | nil => exact ⟨'n', _, rfl, rfl⟩
    | boolean b => cases b <;> exact ⟨_, _, rfl, rfl⟩
    | character c => exact ⟨characterDelimiter, _, String.toList_ofList, rfl⟩
    | string s => exact ⟨stringDelimiter, _, String.toList_ofList, rfl⟩
    | _ => exact (hk rfl).elim
  | _ => exact ⟨_, _, rfl, rfl⟩

def Shaped (t : Token) : Kind → Prop
  | .dot => t = dot
  | .opening => t = opening
  | .closing => t = closing
  | .comma => t = comma
  | .operator => ∃ op, t = operator op
  | .character => ∃ c, t = literal (.character c)
  | .string => ∃ s, t = literal (.string s)
  | .word | .number => True

theorem shaped (t : Token) : t.Shaped t.kind := by
  cases t with
  | literal value =>
    cases value with
    | character c => exact ⟨c, rfl⟩
    | string s => exact ⟨s, rfl⟩
    | _ => trivial
  | operator op => exact ⟨op, rfl⟩
  | word spelling => trivial
  | _ => rfl

theorem isAtom_of_mem_word (h : t.Valid) (hk : t.kind = .word) {c : Char} (hc : c ∈ t.chars) :
    (Kind.ofChar c).isAtom = true := by
  have hletters : ∀ s ∈ ["null", "true", "false"],
      s.toList.all (fun c => (Kind.ofChar c).isAtom) = true := by
    decide
  cases t with
  | word spelling =>
    simp only [Valid, isWord, Bool.and_eq_true, List.all_eq_true, decide_eq_true_eq] at h
    have hplain := h.1.2 c hc
    simp only [List.mem_cons, List.not_mem_nil, or_false, not_or] at hplain
    obtain ⟨h₁, h₂, h₃, h₄, h₅⟩ := hplain
    rw [Kind.ofChar, if_neg h₁, if_neg h₂, if_neg h₃, if_neg h₄, if_neg h₅]
    split_ifs <;> rfl
  | literal value =>
    cases value with
    | nil => exact List.all_eq_true.1 (hletters "null" (by decide)) c hc
    | boolean b =>
      cases b with
      | false => exact List.all_eq_true.1 (hletters "false" (by decide)) c hc
      | true => exact List.all_eq_true.1 (hletters "true" (by decide)) c hc
    | _ => cases hk
  | _ => cases hk

theorem eq_of_chars_word (h : t.Valid) (h' : t'.Valid) (hk : t.kind = .word)
    (hk' : t'.kind = .word) (heq : t.chars = t'.chars) : t = t' := by
  have hword : ∀ {spelling : String} {value : Literal}, (word spelling).Valid →
      (literal value).kind = .word → (word spelling).chars ≠ (literal value).chars := by
    intro spelling value hs hk heq
    have hspelling : spelling = Render.literal value := String.toList_inj.1 heq
    simp only [Valid, isWord, Bool.and_eq_true, decide_eq_true_eq] at hs
    apply hs.2
    rw [hspelling]
    cases value with
    | nil => decide
    | boolean b => cases b <;> decide
    | _ => cases hk
  cases t with
  | word spelling =>
    cases t' with
    | word spelling' => rw [String.toList_inj.1 heq]
    | literal value => exact (hword h hk' heq).elim
    | _ => cases hk'
  | literal value =>
    cases t' with
    | word spelling' => exact (hword h' hk heq.symm).elim
    | literal value' =>
      cases value with
      | nil =>
        cases value' with
        | nil => rfl
        | boolean b => cases b <;> simp [chars, Render.literal] at heq
        | _ => cases hk'
      | boolean b =>
        cases value' with
        | nil => cases b <;> simp [chars, Render.literal] at heq
        | boolean b' => cases b <;> cases b' <;> first | rfl | simp [chars, Render.literal] at heq
        | _ => cases hk'
      | _ => cases hk
    | _ => cases hk'
  | _ => cases hk

theorem eq_of_chars_number (h : t.Valid) (h' : t'.Valid) (hk : t.kind = .number)
    (hk' : t'.kind = .number) (heq : t.chars = t'.chars) : t = t' := by
  cases t with
  | literal value =>
    cases t' with
    | literal value' =>
      have htext : Render.literal value = Render.literal value' := String.toList_inj.1 heq
      cases value with
      | integer n =>
        cases value' with
        | integer n' => rw [Text.toString_inj htext]
        | decimal d' => exact (h' d' rfl n htext.symm).elim
        | _ => cases hk'
      | decimal d =>
        cases value' with
        | integer n' => exact (h d rfl n' htext).elim
        | decimal d' => rw [Decimal.toText_inj (h d rfl) (h' d' rfl) htext]
        | _ => cases hk'
      | _ => cases hk
    | _ => cases hk'
  | _ => cases hk

end Token

def text (ts : List Token) : List Char :=
  ts.flatMap Token.chars

theorem text_cons (t : Token) (ts : List Token) : text (t :: ts) = t.chars ++ text ts :=
  List.flatMap_cons

structure Row (ts : List Token) : Prop where
  valid : ∀ t ∈ ts, t.Valid
  apart : ts.IsChain Token.Follows

namespace Row

variable {t t' : Token} {ts ts' : List Token}

theorem head (h : Row (t :: ts)) : t.Valid :=
  h.valid t (.head _)

theorem tail (h : Row (t :: ts)) : Row ts :=
  ⟨fun t ht => h.valid t (.tail _ ht), (List.isChain_cons.1 h.apart).2⟩

/-- What is behind a word or literal starts with a character that ends it. -/
theorem ends (h : Row (t :: ts)) (ht : t.kind.isAtom = true) {c : Char} {cs : List Char}
    (hc : text ts = c :: cs) : (Kind.ofChar c).isAtom = false ∧
      (c = '.' → ∀ d ds, cs = d :: ds → Kind.ofChar d = .word) := by
  cases ts with
  | nil => cases hc
  | cons next ts =>
    have hnext := (List.isChain_cons_cons.1 h.apart).1.1 ht
    obtain ⟨d, ds, hd, hkind⟩ := Token.exists_cons h.tail.head
    rw [text_cons, hd] at hc
    obtain ⟨rfl, rfl⟩ := List.cons.inj hc
    rw [hkind]
    refine ⟨hnext, ?_⟩
    rintro rfl e es hcs
    have hshape := next.shaped
    rw [← hkind] at hshape
    cases hshape
    cases hd
    cases ts with
    | nil => cases hcs
    | cons after ts =>
      obtain ⟨spelling, rfl⟩ := (List.isChain_cons_cons.1 h.tail.apart).1.2 rfl
      obtain ⟨c, cs, hc, hword⟩ := Token.exists_cons h.tail.tail.head
      rw [text_cons, hc] at hcs
      cases hcs
      exact hword

end Row

/-- What ends as soon as it can is the same in front of the same. -/
theorem append_inj_of_ends {x x' r r' : List Char} (h : x ++ r = x' ++ r')
    (hx : ∀ c y, x' = x ++ c :: y → r ≠ c :: (y ++ r'))
    (hx' : ∀ c y, x = x' ++ c :: y → r' ≠ c :: (y ++ r)) : x = x' ∧ r = r' := by
  rcases List.append_eq_append_iff.1 h with ⟨y, hy, hr⟩ | ⟨y, hy, hr⟩
  · cases y with
    | nil => exact ⟨(hy.trans (List.append_nil _)).symm, hr⟩
    | cons c y => exact (hx c y hy hr).elim
  · cases y with
    | nil => exact ⟨hy.trans (List.append_nil _), hr.symm⟩
    | cons c y => exact (hx' c y hy hr).elim

variable {t t' : Token} {ts ts' : List Token}

theorem word_ends (h : Row (t :: ts)) (h' : Row (t' :: ts')) (hk : t.kind = .word)
    (hk' : t'.kind = .word) (c : Char) (y : List Char) (hy : t'.chars = t.chars ++ c :: y) :
    text ts ≠ c :: (y ++ text ts') := by
  intro hr
  have hend := (h.ends (by rw [hk]; rfl) hr).1
  have hatom := Token.isAtom_of_mem_word h'.head hk' (hy ▸ List.mem_append_right _ (.head _))
  rw [hatom] at hend
  cases hend

theorem number_ends (h : Row (t :: ts)) (h' : Row (t' :: ts')) (hk : t.kind = .number)
    (hk' : t'.kind = .number) (c : Char) (y : List Char) (hy : t'.chars = t.chars ++ c :: y) :
    text ts ≠ c :: (y ++ text ts') := by
  intro hr
  obtain ⟨hend, hdot⟩ := h.ends (by rw [hk]; rfl) hr
  obtain ⟨n, hn, hchars⟩ := Token.exists_numeral h'.head hk'
  rw [hchars] at hy
  have hnumber : Decimal.Numeral.isNumberChar c = true :=
    Decimal.Numeral.isNumberChar_of_mem hn (hy ▸ List.mem_append_right _ (.head _))
  simp only [Decimal.Numeral.isNumberChar, Bool.or_eq_true, decide_eq_true_eq, List.mem_cons,
    List.not_mem_nil, or_false] at hnumber
  rcases hnumber with hd | rfl | rfl | rfl | rfl | rfl
  · rw [Token.ofChar_of_number (.inr hd)] at hend
    cases hend
  · cases hend
  · cases hend
  · -- behind the point of a number there is a digit, behind a dot there is none
    obtain ⟨d, ds, rfl, hd⟩ := Decimal.Numeral.digit_of_point hn hy
    have hword := hdot rfl d (ds ++ text ts') rfl
    rw [Token.ofChar_of_number (.inr hd)] at hword
    cases hword
  · cases hend
  · cases hend

theorem operator_append_inj {op op' : Operator} {r r' : List Char}
    (h : (operator op).toList ++ ' ' :: r = (operator op').toList ++ ' ' :: r') :
    op = op' ∧ r = r' := by
  have hends : ∀ {a b : Operator} {r r' : List Char} (c : Char) (y : List Char),
      (operator b).toList = (operator a).toList ++ c :: y → ' ' :: r ≠ c :: (y ++ ' ' :: r') := by
    intro a b r r' c y hy hr
    obtain ⟨rfl, -⟩ := List.cons.inj hr
    exact space_not_mem_operator b (hy ▸ List.mem_append_right _ (.head _))
  obtain ⟨hop, hrest⟩ := append_inj_of_ends h hends hends
  exact ⟨operator_inj (String.toList_inj.1 hop), (List.cons.inj hrest).2⟩

theorem token_append_inj (h : Row (t :: ts)) (h' : Row (t' :: ts'))
    (heq : t.chars ++ text ts = t'.chars ++ text ts') : t = t' ∧ text ts = text ts' := by
  have hkind : t'.kind = t.kind := by
    obtain ⟨c, cs, hc, hk⟩ := Token.exists_cons h.head
    obtain ⟨c', cs', hc', hk'⟩ := Token.exists_cons h'.head
    rw [hc, hc'] at heq
    rw [← hk, ← hk', (List.cons.inj heq).1]
  have hshape := t.shaped
  have hshape' := t'.shaped
  rw [hkind] at hshape'
  cases hk : t.kind with
  | word =>
    obtain ⟨hchars, hrest⟩ := append_inj_of_ends heq (word_ends h h' hk (hkind.trans hk))
      (word_ends h' h (hkind.trans hk) hk)
    exact ⟨Token.eq_of_chars_word h.head h'.head hk (hkind.trans hk) hchars, hrest⟩
  | number =>
    obtain ⟨hchars, hrest⟩ := append_inj_of_ends heq (number_ends h h' hk (hkind.trans hk))
      (number_ends h' h (hkind.trans hk) hk)
    exact ⟨Token.eq_of_chars_number h.head h'.head hk (hkind.trans hk) hchars, hrest⟩
  | character =>
    rw [hk] at hshape hshape'
    obtain ⟨c, rfl⟩ := hshape
    obtain ⟨c', rfl⟩ := hshape'
    simp only [Token.chars, literal, String.toList_ofList] at heq
    obtain ⟨hcs, hrest⟩ := delimited_append_inj (.inr rfl) heq
    cases hcs
    exact ⟨rfl, hrest⟩
  | string =>
    rw [hk] at hshape hshape'
    obtain ⟨s, rfl⟩ := hshape
    obtain ⟨s', rfl⟩ := hshape'
    simp only [Token.chars, literal, String.toList_ofList] at heq
    obtain ⟨hcs, hrest⟩ := delimited_append_inj (.inl rfl) heq
    rw [String.toList_inj.1 hcs]
    exact ⟨rfl, hrest⟩
  | operator =>
    rw [hk] at hshape hshape'
    obtain ⟨op, rfl⟩ := hshape
    obtain ⟨op', rfl⟩ := hshape'
    simp only [Token.chars, List.cons_append, List.append_assoc, List.nil_append, List.cons.injEq,
      true_and] at heq
    obtain ⟨rfl, hrest⟩ := operator_append_inj heq
    exact ⟨rfl, hrest⟩
  | dot | opening | closing | comma =>
    rw [hk] at hshape hshape'
    cases hshape
    cases hshape'
    exact ⟨rfl, List.append_cancel_left heq⟩

/-- Tokens can be told from their text. -/
theorem row_inj : ∀ {ts ts' : List Token}, Row ts → Row ts' → text ts = text ts' → ts = ts'
  | [], [], _, _, _ => rfl
  | [], t :: ts, _, h, heq => by
    obtain ⟨c, cs, hc, -⟩ := Token.exists_cons h.head
    rw [text_cons, hc] at heq
    cases heq
  | t :: ts, [], h, _, heq => by
    obtain ⟨c, cs, hc, -⟩ := Token.exists_cons h.head
    rw [text_cons, hc] at heq
    cases heq
  | t :: ts, t' :: ts', h, h', heq => by
    rw [text_cons, text_cons] at heq
    obtain ⟨rfl, hrest⟩ := token_append_inj h h' heq
    rw [row_inj h.tail h'.tail hrest]

end Render

end TypedImp
