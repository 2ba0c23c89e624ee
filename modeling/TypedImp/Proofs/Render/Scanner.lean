import Mathlib.Data.List.Basic
import Mathlib.Tactic.Common
import TypedImp.Render.Literal

/-!
# Literals read back

A scanner reads what stands between delimiters: escapes as what they stand for, all other characters
as themselves, up to the first delimiter that is not part of an escape. It reads one character from
each that was escaped (`scan_escape`), and so the whole content, whatever comes behind the literal
(`readLiteral_delimited`). Main statement: `literals_decode`.
-/

namespace TypedImp.Render

/-- The letters that may stand behind a backslash, with what they stand for. -/
def escapes : List (Char × Char) :=
  [('\\', '\\'), ('n', '\n'), ('r', '\r'), ('t', '\t'), ('b', '\x08'), ('f', '\x0c'),
    ('\x22', '\x22'), ('\x27', '\x27')]

/-- Reads up to the delimiter, and gives what was read and what is left behind the delimiter. There
must be one, and every backslash must be that of an escape. -/
def scan (delimiter : Char) : List Char → Option (List Char × List Char)
  | [] => none
  | '\\' :: letter :: rest =>
    (escapes.lookup letter).bind fun c => (scan delimiter rest).map (.map (c :: ·) id)
  | c :: rest =>
    if c = delimiter then some ([], rest)
    else (scan delimiter rest).map (.map (c :: ·) id)

def readLiteral (delimiter : Char) : List Char → Option (List Char × List Char)
  | [] => none
  | c :: rest => if c = delimiter then scan delimiter rest else none

/-! ## The scanner -/

variable {q c x : Char}

theorem scan_cons (hc : c ≠ '\\') (hne : c ≠ q) (r : List Char) :
    scan q (c :: r) = (scan q r).map (.map (c :: ·) id) := by
  rw [scan, if_neg hne]
  exact fun _ _ h => absurd h hc

theorem scan_delimiter (hq : q ≠ '\\') (r : List Char) : scan q (q :: r) = some ([], r) := by
  rw [scan, if_pos rfl]
  exact fun _ _ h => absurd h hq

/-- Where a scan has come to its end, what comes behind does not matter to it. -/
theorem scan_append (hq : q ≠ '\\') (more : List Char) {text cs r : List Char}
    (h : scan q text = some (cs, r)) : scan q (text ++ more) = some (cs, r ++ more) := by
  fun_induction scan q text generalizing cs r with
  | case1 => cases h
  | case2 letter rest ih =>
    obtain ⟨c, hc, hrest⟩ := Option.bind_eq_some_iff.1 h
    obtain ⟨⟨cs', r'⟩, hscan, hpair⟩ := Option.map_eq_some_iff.1 hrest
    cases hpair
    rw [List.cons_append, List.cons_append, scan, hc, Option.bind_some, ih hscan]
    rfl
  | case3 rest _ =>
    cases h
    exact scan_delimiter hq _
  | case4 c rest hescape hne ih =>
    obtain ⟨⟨cs', r'⟩, hscan, hpair⟩ := Option.map_eq_some_iff.1 h
    cases hpair
    -- a backslash that starts no escape is the last character, and then nothing was read
    have hc : c ≠ '\\' := by
      rintro rfl
      cases rest with
      | nil => cases hscan
      | cons letter rest => exact hescape letter rest rfl rfl
    rw [List.cons_append, scan_cons hc hne, ih hscan]
    rfl

theorem readLiteral_append (hq : q ≠ '\\') (more : List Char) {text cs r : List Char}
    (h : readLiteral q text = some (cs, r)) :
    readLiteral q (text ++ more) = some (cs, r ++ more) := by
  cases text with
  | nil => cases h
  | cons c text =>
    rw [readLiteral] at h
    split_ifs at h with hc
    rw [List.cons_append, readLiteral, if_pos hc]
    exact scan_append hq more h

/-! ## What was escaped -/

theorem escapeLetter?_eq_none (h : escapeLetter? q c = none) : c ≠ q ∧ c ≠ '\\' := by
  unfold escapeLetter? at h
  split_ifs at h with h₁ h₂ h₃ h₄ h₅ h₆ h₇
  exact ⟨h₇, h₁⟩

section Delimiter

variable (hq : q = stringDelimiter ∨ q = characterDelimiter)
include hq

theorem delimiter_ne : q ≠ '\\' := by
  rcases hq with rfl | rfl <;> decide

theorem lookup_of_escapeLetter {letter : Char} (h : escapeLetter? q c = some letter) :
    escapes.lookup letter = some c := by
  unfold escapeLetter? at h
  split_ifs at h with h₁ h₂ h₃ h₄ h₅ h₆ h₇
  all_goals
    cases h
    subst c
  on_goal 7 => rcases hq with rfl | rfl
  all_goals decide

/-- A character is read from how it is escaped, and the scan goes on behind it. -/
theorem scan_escape (c : Char) (r : List Char) :
    scan q (escape q c ++ r) = (scan q r).map (.map (c :: ·) id) := by
  unfold escape
  cases h : escapeLetter? q c with
  | some letter =>
    simp only [List.cons_append, List.nil_append, scan, lookup_of_escapeLetter hq h,
      Option.bind_some]
  | none =>
    obtain ⟨hdelimiter, hbackslash⟩ := escapeLetter?_eq_none h
    exact scan_cons hbackslash hdelimiter r

theorem scan_escaped (r : List Char) :
    ∀ cs : List Char, scan q (cs.flatMap (escape q) ++ q :: r) = some (cs, r)
  | [] => scan_delimiter (delimiter_ne hq) r
  | c :: cs => by
    rw [List.flatMap_cons, List.append_assoc, scan_escape hq, scan_escaped r cs]
    rfl

theorem readLiteral_delimited (cs r : List Char) :
    readLiteral q (delimited q cs ++ r) = some (cs, r) := by
  simp only [delimited, List.cons_append, List.append_assoc, List.nil_append, readLiteral, if_true]
  exact scan_escaped hq r cs

theorem delimited_append_inj {cs cs' r r' : List Char}
    (h : delimited q cs ++ r = delimited q cs' ++ r') : cs = cs' ∧ r = r' := by
  have hread := readLiteral_delimited hq cs r
  rw [h, readLiteral_delimited hq cs' r'] at hread
  cases hread
  exact ⟨rfl, rfl⟩

/-- What a literal begins with, short of the whole, is not read as a literal. -/
theorem readLiteral_of_prefix {cs front : List Char} (hfront : front <+: delimited q cs)
    (hne : front ≠ delimited q cs) : readLiteral q front = none := by
  obtain ⟨more, hmore⟩ := hfront
  cases hread : readLiteral q front with
  | none => rfl
  | some p =>
    have hwhole : readLiteral q (delimited q cs) = some (cs, []) := by
      simpa only [List.append_nil] using readLiteral_delimited hq cs []
    have hmost : readLiteral q (delimited q cs) = some (p.1, p.2 ++ more) :=
      hmore ▸ readLiteral_append (delimiter_ne hq) more hread
    have hleft : p.2 ++ more = [] := congrArg Prod.snd (Option.some.inj (hmost.symm.trans hwhole))
    rw [(List.append_eq_nil_iff.1 hleft).2, List.append_nil] at hmore
    exact absurd hmore hne

theorem not_mem_escape (hx : x = '\n' ∨ x = '\r') (c : Char) : x ∉ escape q c := by
  unfold escape
  intro hmem
  cases h : escapeLetter? q c with
  | some letter =>
    simp only [h, List.mem_cons, List.not_mem_nil, or_false] at hmem
    rcases hmem with hbackslash | hletter
    · rcases hx with rfl | rfl <;> cases hbackslash
    · -- a line break is not the letter of an escape
      have hlookup := lookup_of_escapeLetter hq h
      rcases hx with rfl | rfl <;> (subst hletter; cases hlookup)
  | none =>
    simp only [h, List.mem_singleton] at hmem
    subst hmem
    rcases hx with rfl | rfl <;> cases h

theorem not_mem_delimited (hx : x = '\n' ∨ x = '\r') (cs : List Char) : x ∉ delimited q cs := by
  have hne : x ≠ q := by
    rcases hx with rfl | rfl <;> rcases hq with rfl | rfl <;> decide
  simp only [delimited, List.cons_append, List.mem_cons, List.mem_append, List.mem_flatMap,
    List.not_mem_nil, or_false, not_or, not_exists, not_and]
  exact ⟨hne, fun c _ => not_mem_escape hq hx c, hne⟩

end Delimiter

/-! ## Literals -/

/-- The text is a literal, and is read as this content. -/
structure Delimits (delimiter : Char) (content : List Char) (text : String) : Prop where
  /-- The reader stops right behind the text, whatever follows it. -/
  read (rest : String) : readLiteral delimiter (text ++ rest).toList = some (content, rest.toList)
  /-- There is no end before that of the text. -/
  unended (front : List Char) (h : front <+: text.toList) (hne : front ≠ text.toList) :
    readLiteral delimiter front = none
  oneLine : '\n' ∉ text.toList ∧ '\r' ∉ text.toList

theorem Delimits.unique {cs cs' : List Char} {text : String} (h : Delimits q cs text)
    (h' : Delimits q cs' text) : cs = cs' :=
  congrArg Prod.fst (Option.some.inj ((h.read "").symm.trans (h'.read "")))

theorem delimits_delimited (hq : q = stringDelimiter ∨ q = characterDelimiter) (cs : List Char) :
    Delimits q cs (String.ofList (delimited q cs)) where
  read rest := by
    rw [String.toList_append, String.toList_ofList]
    exact readLiteral_delimited hq cs _
  unended front h hne := by
    rw [String.toList_ofList] at h hne
    exact readLiteral_of_prefix hq h hne
  oneLine := by
    rw [String.toList_ofList]
    exact ⟨not_mem_delimited hq (.inl rfl) cs, not_mem_delimited hq (.inr rfl) cs⟩

/-- The literals of strings and characters are read as what they were made from, end nowhere
earlier and stay on their line, and so different ones have different literals. -/
theorem literals_decode :
    (∀ s : String, Delimits stringDelimiter s.toList (literal (.string s))) ∧
      (∀ c : Char, Delimits characterDelimiter [c] (literal (.character c))) ∧
      (Function.Injective fun s : String => literal (.string s)) ∧
      Function.Injective fun c : Char => literal (.character c) := by
  have hstring (s : String) : Delimits stringDelimiter s.toList (literal (.string s)) :=
    delimits_delimited (.inl rfl) s.toList
  have hcharacter (c : Char) : Delimits characterDelimiter [c] (literal (.character c)) :=
    delimits_delimited (.inr rfl) [c]
  refine ⟨hstring, hcharacter, fun s s' h => ?_, fun c c' h => ?_⟩
  · have htext : literal (.string s) = literal (.string s') := h
    exact String.toList_inj.1 ((hstring s).unique (htext ▸ hstring s'))
  · have htext : literal (.character c) = literal (.character c') := h
    exact List.singleton_injective ((hcharacter c).unique (htext ▸ hcharacter c'))

end TypedImp.Render
