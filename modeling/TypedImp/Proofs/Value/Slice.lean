import Mathlib.Data.List.Basic
import Mathlib.Tactic.Lift
import TypedImp.Machine.Operation
import TypedImp.Proofs.Outcome
import TypedImp.Types.Builtin

/-!
# Slices of strings

Strings are counted and cut in characters. A slice has what stands between two positions, so slices
that meet are joined by `+`, a slice of a slice is a slice, and what `+` has joined can be cut apart
again. Main statement: `slices_compose`.
-/

namespace TypedImp

namespace Builtin

variable {s t u : String} {i j k : Int} {l m n : Nat}

/-- The built-in `length` of a value with this text is this number. -/
def Measures (s : String) (n : Int) : Prop :=
  ∀ v : Value, v.datum = .string s → length [v] = .ok (.integer n)

/-- The built-in `slice` of a value with this text, between values with these numbers, ends with
this outcome. -/
def Slices (s : String) (i j : Int) (o : Except Error String) : Prop :=
  ∀ v a b : Value, v.datum = .string s → a.datum = .integer i → b.datum = .integer j →
    slice [v, a, b] = o.map .string

/-- `+` joins these texts to this one. -/
def Joins (s t u : String) : Prop :=
  Arithmetic.add.apply (.string s) (.string t) = .ok (.string u)

/-- The characters between two positions. -/
def cut (s : String) (m n : Nat) : String :=
  String.ofList ((s.toList.drop m).take (n - m))

/-! ## Cuts -/

theorem length_cut (hmn : m ≤ n) (hn : n ≤ s.length) : (cut s m n).length = n - m := by
  rw [cut, String.length_ofList, List.length_take, List.length_drop, String.length_toList]
  omega

theorem cut_zero_length (s : String) : cut s 0 s.length = s := by
  rw [cut, List.drop_zero, Nat.sub_zero, ← String.length_toList, List.take_length,
    String.ofList_toList]

theorem cut_append_cut (s : String) (hlm : l ≤ m) (hmn : m ≤ n) :
    cut s l m ++ cut s m n = cut s l n := by
  have hwidth : n - l = (m - l) + (n - m) := by omega
  have hdrop : s.toList.drop m = (s.toList.drop l).drop (m - l) := by
    rw [List.drop_drop, Nat.add_sub_cancel' hlm]
  rw [cut, cut, cut, ← String.ofList_append, hwidth, List.take_add, hdrop]

theorem cut_cut (s : String) {a b : Nat} (hb : b ≤ n - m) :
    cut (cut s m n) a b = cut s (m + a) (m + b) := by
  have hwidth : m + b - (m + a) = b - a := by omega
  have hleast : min (b - a) (n - m - a) = b - a := by omega
  rw [cut, cut, cut, String.toList_ofList, List.drop_take, List.take_take, List.drop_drop, hwidth,
    hleast]

theorem cut_append_left (s t : String) : cut (s ++ t) 0 s.length = s := by
  rw [cut, String.toList_append, List.drop_zero, Nat.sub_zero, ← String.length_toList,
    List.take_left, String.ofList_toList]

theorem cut_append_right (s t : String) : cut (s ++ t) s.length (s.length + t.length) = t := by
  rw [cut, String.toList_append, ← String.length_toList, List.drop_left, Nat.add_sub_cancel_left,
    ← String.length_toList, List.take_length, String.ofList_toList]

/-! ## The built-in members -/

theorem measures (s : String) : Measures s s.length := by
  rintro ⟨_, _, _⟩ ⟨⟩
  rfl

theorem joins (s t : String) : Joins s t (s ++ t) :=
  rfl

theorem slices_cut (hmn : m ≤ n) (hn : n ≤ s.length) : Slices s m n (.ok (cut s m n)) := by
  rintro ⟨_, _, _⟩ ⟨_, _, _⟩ ⟨_, _, _⟩ ⟨⟩ ⟨⟩ ⟨⟩
  have hbounds : (0 ≤ (m : Int) && (m : Int) ≤ n && (n : Int) ≤ s.length) = true := by
    simp only [Bool.and_eq_true, decide_eq_true_eq]
    omega
  exact if_pos hbounds

theorem slices_error (h : ¬ (0 ≤ i ∧ i ≤ j ∧ j ≤ s.length)) :
    Slices s i j (.error (.indexOutOfBounds (toString i) (toString j) s.length)) := by
  rintro ⟨_, _, _⟩ ⟨_, _, _⟩ ⟨_, _, _⟩ ⟨⟩ ⟨⟩ ⟨⟩
  have hbounds : ¬ (0 ≤ i && i ≤ j && j ≤ s.length) = true := by
    simp only [Bool.and_eq_true, decide_eq_true_eq]
    omega
  exact if_neg hbounds

theorem Slices.unique {o o' : Except Error String} (h : Slices s i j o) (h' : Slices s i j o') :
    o = o' := by
  have hinj : Function.Injective Value.string :=
    fun _ _ h => Datum.string.inj (congrArg Value.datum h)
  have heq := (h (.string s) (.integer i) (.integer j) rfl rfl rfl).symm.trans
    (h' (.string s) (.integer i) (.integer j) rfl rfl rfl)
  exact map_injective hinj heq

/-- What a slice that succeeds gives. -/
theorem Slices.exists_cut (h : Slices s i j (.ok u)) :
    ∃ m n : Nat, i = m ∧ j = n ∧ m ≤ n ∧ n ≤ s.length ∧ u = cut s m n := by
  by_cases hbounds : 0 ≤ i ∧ i ≤ j ∧ j ≤ s.length
  · obtain ⟨hi, hij, hj⟩ := hbounds
    lift i to Nat using hi
    lift j to Nat using by omega
    have hmn : i ≤ j := by exact_mod_cast hij
    have hn : j ≤ s.length := by exact_mod_cast hj
    exact ⟨i, j, rfl, rfl, hmn, hn, Except.ok.inj (h.unique (slices_cut hmn hn))⟩
  · cases h.unique (slices_error hbounds)

theorem exists_slices_iff : (∃ u, Slices s i j (.ok u)) ↔ 0 ≤ i ∧ i ≤ j ∧ j ≤ s.length := by
  constructor
  · rintro ⟨u, hu⟩
    obtain ⟨m, n, rfl, rfl, hmn, hn, -⟩ := hu.exists_cut
    omega
  · rintro ⟨hi, hij, hj⟩
    lift i to Nat using hi
    lift j to Nat using by omega
    exact ⟨_, slices_cut (by omega) (by omega)⟩

theorem Slices.measures (h : Slices s i j (.ok u)) : Measures u (j - i) := by
  obtain ⟨m, n, rfl, rfl, hmn, hn, rfl⟩ := h.exists_cut
  have hlength := Builtin.measures (cut s m n)
  rwa [length_cut hmn hn, Int.ofNat_sub hmn] at hlength

theorem slices_all (s : String) : Slices s 0 s.length (.ok s) := by
  have hwhole := slices_cut (Nat.zero_le s.length) (Nat.le_refl s.length)
  rwa [cut_zero_length] at hwhole

theorem slices_meet (hi : 0 ≤ i) (hij : i ≤ j) (hjk : j ≤ k) (hk : k ≤ s.length) :
    ∃ u v w, Slices s i j (.ok u) ∧ Slices s j k (.ok v) ∧ Slices s i k (.ok w) ∧ Joins u v w := by
  lift i to Nat using hi
  lift j to Nat using by omega
  lift k to Nat using by omega
  have hlm : i ≤ j := by exact_mod_cast hij
  have hmn : j ≤ k := by exact_mod_cast hjk
  have hn : k ≤ s.length := by exact_mod_cast hk
  refine ⟨_, _, _, slices_cut hlm (Nat.le_trans hmn hn), slices_cut hmn hn,
    slices_cut (Nat.le_trans hlm hmn) hn, ?_⟩
  rw [← cut_append_cut s hlm hmn]
  exact joins _ _

theorem Slices.slices {a b : Int} (h : Slices s i j (.ok u)) (ha : 0 ≤ a) (hab : a ≤ b)
    (hb : b ≤ j - i) : ∃ w, Slices u a b (.ok w) ∧ Slices s (i + a) (i + b) (.ok w) := by
  obtain ⟨m, n, rfl, rfl, hmn, hn, rfl⟩ := h.exists_cut
  lift a to Nat using ha
  lift b to Nat using by omega
  have hbn : b ≤ n - m := by omega
  have hinner := slices_cut (s := cut s m n) (m := a) (n := b) (by omega)
    (by rwa [length_cut hmn hn])
  have houter := slices_cut (s := s) (m := m + a) (n := m + b) (by omega) (by omega)
  rw [cut_cut s hbn] at hinner
  exact ⟨_, hinner, houter⟩

theorem slices_joined (s t : String) : Slices (s ++ t) 0 s.length (.ok s) ∧
    Slices (s ++ t) s.length (s.length + t.length) (.ok t) := by
  have hle : s.length ≤ (s ++ t).length := by
    rw [String.length_append]
    exact Nat.le_add_right _ _
  have hleft := slices_cut (Nat.zero_le s.length) hle
  have hright := slices_cut hle (Nat.le_refl _)
  rw [cut_append_left] at hleft
  rw [String.length_append, cut_append_right] at hright
  exact ⟨hleft, hright⟩

/-- Slicing succeeds between positions of the text that are in order, and gives as many characters
as lie between them; elsewhere it fails. The whole text is a slice of itself. Slices that meet are
joined to the slice from the first position to the last, a slice of a slice is the one at the
positions moved by its start, and a joined text is cut apart into its parts where the first ends. -/
theorem slices_compose :
    (∀ s i j, (∃ u, Slices s i j (.ok u)) ↔ 0 ≤ i ∧ i ≤ j ∧ j ≤ s.length) ∧
    (∀ s i j, ¬ (0 ≤ i ∧ i ≤ j ∧ j ≤ s.length) →
      Slices s i j (.error (.indexOutOfBounds (toString i) (toString j) s.length))) ∧
    (∀ s i j u, Slices s i j (.ok u) → Measures u (j - i)) ∧
    (∀ s, Measures s s.length ∧ Slices s 0 s.length (.ok s)) ∧
    (∀ s i j k, 0 ≤ i → i ≤ j → j ≤ k → k ≤ s.length → ∃ u v w, Slices s i j (.ok u) ∧
      Slices s j k (.ok v) ∧ Slices s i k (.ok w) ∧ Joins u v w) ∧
    (∀ s i j u a b, Slices s i j (.ok u) → 0 ≤ a → a ≤ b → b ≤ j - i → ∃ w,
      Slices u a b (.ok w) ∧ Slices s (i + a) (i + b) (.ok w)) ∧
    ∀ s t, ∃ w, Joins s t w ∧ Measures w (s.length + t.length) ∧ Slices w 0 s.length (.ok s) ∧
      Slices w s.length (s.length + t.length) (.ok t) := by
  refine ⟨fun s i j => exists_slices_iff, fun s i j => slices_error, fun s i j u => Slices.measures,
    fun s => ⟨measures s, slices_all s⟩, fun s i j k => slices_meet,
    fun s i j u a b => Slices.slices, fun s t => ⟨s ++ t, joins s t, ?_, slices_joined s t⟩⟩
  have hlength := measures (s ++ t)
  rwa [String.length_append, Int.natCast_add] at hlength

/-- Characters count as one, however they are encoded. -/
theorem slices_compose_accents :
    let s := "né€"
    Slices s 1 3 (.ok "é€") ∧ Measures "é€" (3 - 1) ∧
      (∃ w, Slices "é€" 1 2 (.ok w) ∧ Slices s (1 + 1) (1 + 2) (.ok w)) ∧
      (∃ u v w, Slices s 0 1 (.ok u) ∧ Slices s 1 3 (.ok v) ∧ Slices s 0 3 (.ok w) ∧ Joins u v w) ∧
      ¬ (0 ≤ (-1 : Int) ∧ (-1 : Int) ≤ 2 ∧ 2 ≤ (s.length : Int)) ∧
      Slices s (-1) 2 (.error (.indexOutOfBounds "-1" "2" 3)) := by
  intro s
  obtain ⟨-, hfails, hlength, -, hmeet, hinner, -⟩ := slices_compose
  have hslice : Slices s 1 3 (.ok "é€") := by
    have hcut := slices_cut (s := s) (m := 1) (n := 3) (by decide) (by decide)
    rwa [show cut s 1 3 = "é€" by decide] at hcut
  have hbounds : ¬ (0 ≤ (-1 : Int) ∧ (-1 : Int) ≤ 2 ∧ 2 ≤ (s.length : Int)) := by decide
  have herror := hfails s (-1) 2 hbounds
  rw [show toString (-1 : Int) = "-1" by decide, show toString (2 : Int) = "2" by decide,
    show s.length = 3 by decide] at herror
  exact ⟨hslice, hlength s 1 3 _ hslice,
    hinner s 1 3 _ 1 2 hslice (by decide) (by decide) (by decide),
    hmeet s 0 1 3 (by decide) (by decide) (by decide) (by decide), hbounds, herror⟩

end Builtin

end TypedImp
