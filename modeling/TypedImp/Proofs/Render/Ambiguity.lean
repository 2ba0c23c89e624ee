import TypedImp.Machine.Run
import TypedImp.Proofs.Render.Unique
import TypedImp.Proofs.Types.Memberless
import TypedImp.Proofs.Typing.Program

/-!
# Texts and values

Ungrouped operators are written without parentheses, and names are written as they were registered
to be, so expressions of different values may have the same text. Where operators nest by a rule and
names are spelled apart, they have not.
-/

namespace TypedImp.Render

variable {r : Registry} {c : Checker} {rule : List Operator → Nat}

/-! ## Plain names -/

section

variable {type type' : TypeId} {name name' : String} {n arity : Nat}

theorem dot_not_mem_of_isWord {w : String} (h : isWord w = true) : '.' ∉ w.toList := by
  simp only [isWord, Bool.and_eq_true, List.all_eq_true] at h
  intro hdot
  have := h.1.2 '.' hdot
  cases this

theorem target_isWord {m : MethodMember} (h : Builtin.HasMethod type name n m) :
    isWord m.target = true := by
  cases h with
  | stringify _ => decide
  | compare _ =>
    show isWord "compareTo" = true
    decide
  | slice => decide

theorem name_unique {m m' : MethodMember} (h : Builtin.HasMethod type name n m)
    (h' : Builtin.HasMethod type' name' n m') : name = name' := by
  cases h <;> cases h' <;> rfl

theorem length_ne_method {m : MethodMember} (h : Builtin.HasMethod type name n m) :
    Builtin.lengthField.target ≠ m.target ++ "()" := by
  cases h with
  | stringify _ => decide
  | compare _ =>
    show "length()" ≠ "compareTo" ++ "()"
    decide
  | slice => decide

/-- What `print` is spelled as is a member of nothing but `System`. -/
theorem print_ne_member {w rest : String} (hw : isWord w = true) (hs : w ≠ "System") :
    Checker.print.target ≠ w ++ "." ++ rest := by
  intro heq
  have hchars :
      "System".toList ++ '.' :: "out.println".toList = w.toList ++ '.' :: rest.toList := by
    have htext := congrArg String.toList heq
    rw [String.toList_append, String.toList_append, List.append_assoc] at htext
    exact htext
  have hcount : "System".toList.countP (· = '.') = w.toList.countP (· = '.') := by
    symm
    show _ = 0
    rw [List.countP_eq_zero]
    intro c hc hdot
    exact dot_not_mem_of_isWord hw (of_decide_eq_true hdot ▸ hc)
  obtain ⟨hsystem, -⟩ := append_cons_inj_of_countP (by decide) (by decide) hcount hchars
  exact hs (String.toList_inj.1 hsystem).symm

/-- Names are spelled apart where no member was added to a type, every other name than `print` is a
word that is spelled as it is, and no variable is called `System`. -/
theorem spelledApart_of_plain (hr : r.Memberless)
    (hv : ∀ {name : String} {v : Variable}, c.lookupVariable name = .ok v →
      v.target = name ∧ isWord name = true ∧ name ≠ "System")
    (hf : ∀ {name : String} {arity : Nat} {f : Function}, c.lookupFunction name arity = .ok f →
      (f.target = name ∧ isWord name = true) ∨ f = Checker.print) : SpelledApart r c where
  variable_word h := by
    obtain ⟨htarget, hword, -⟩ := hv h
    rw [htarget, hword]
  variable_inj h h' heq := by
    rw [(hv h).1, (hv h').1] at heq
    subst heq
    exact Except.ok.inj (h.symm.trans h')
  function_words h := by
    rcases hf h with ⟨htarget, hword⟩ | rfl
    · exact ⟨_, [], by simpa using hword, by simpa using htarget⟩
    · exact ⟨"System", ["out", "println"], by decide, by decide⟩
  function_inj h h' heq := by
    rcases hf h with ⟨htarget, hword⟩ | rfl <;> rcases hf h' with ⟨htarget', hword'⟩ | rfl
    · rw [htarget, htarget'] at heq
      subst heq
      exact Except.ok.inj (h.symm.trans h')
    · rw [← htarget, heq] at hword
      exact absurd hword (by decide)
    · rw [← htarget', ← heq] at hword'
      exact absurd hword' (by decide)
    · rfl
  function_not_member {_ _ rest _ _ v} h h' := by
    obtain ⟨htarget', hword', hsystem⟩ := hv h'
    rcases hf h with ⟨htarget, hword⟩ | rfl
    · intro heq
      apply dot_not_mem_of_isWord hword
      rw [← htarget, heq]
      simp
    · exact print_ne_member (htarget' ▸ hword') (htarget' ▸ hsystem)
  field_word h := by
    obtain ⟨type, h⟩ := hr.field_of h
    cases Registry.hasField_of_field h
    exact .inr ⟨"length", by decide, by decide⟩
  field_inj h h' _ := by
    obtain ⟨type, h⟩ := hr.field_of h
    obtain ⟨type', h'⟩ := hr.field_of h'
    cases Registry.hasField_of_field h
    cases Registry.hasField_of_field h'
    rfl
  method_word h := by
    obtain ⟨type, h⟩ := hr.method_of h
    exact target_isWord (Registry.hasMethod_of_method h)
  method_inj h h' _ := by
    obtain ⟨type, hm⟩ := hr.method_of h
    obtain ⟨type', hm'⟩ := hr.method_of h'
    obtain rfl := name_unique (Registry.hasMethod_of_method hm) (Registry.hasMethod_of_method hm')
    cases h.symm.trans h'
    rfl
  field_not_method h h' := by
    obtain ⟨type, h⟩ := hr.field_of h
    obtain ⟨type', h'⟩ := hr.method_of h'
    cases Registry.hasField_of_field h
    exact length_ne_method (Registry.hasMethod_of_method h')

end

/-! ## Values -/

/-- Two expressions that are accepted at a place have the same text, but not the same value. -/
def Ambiguous (r : Registry) (c : Checker) (e e' : Source.Expr) : Prop :=
  ∃ t t' budget m v v', Typing.checkExpr r c e = .ok t ∧ Typing.checkExpr r c e' = .ok t' ∧
    expr t = expr t' ∧ (evaluate r budget t).run m = some (.ok v, m) ∧
    (evaluate r budget t').run m = some (.ok v', m) ∧ v.datum ≠ v'.datum

/-- A text does not tell how ungrouped operators nest, whether one of them is part of a receiver,
whether a whole number is a decimal, or which of the names with one spelling is meant. -/
theorem text_ambiguous :
    Ambiguous .builtin .initial
      (.binary (.arithmetic .subtract) (.literal (.integer 1))
        (.binary (.arithmetic .subtract) (.literal (.integer 2)) (.literal (.integer 3))))
      (.binary (.arithmetic .subtract)
        (.binary (.arithmetic .subtract) (.literal (.integer 1)) (.literal (.integer 2)))
        (.literal (.integer 3))) ∧
    Ambiguous .builtin .initial
      (.method (.binary (.arithmetic .add) (.literal (.integer 1)) (.literal (.integer 2)))
        "stringify" [])
      (.binary (.arithmetic .add) (.literal (.integer 1))
        (.method (.literal (.integer 2)) "stringify" [])) ∧
    Ambiguous .builtin .initial (.literal (.integer 1)) (.literal (.decimal ⟨1, 0⟩)) ∧
    ∃ c, (Checker.initial.defineVariable ⟨"a", "x", .integer⟩).bind
        (·.defineVariable ⟨"b", "x", .integer⟩) = .ok c ∧
      Ambiguous .builtin c (.var "a") (.var "b") := by
  refine ⟨⟨_, _, ⟨0, 0⟩, .initial, .integer 2, .integer (-4), rfl, rfl, rfl, rfl, rfl, ?_⟩,
    ⟨_, _, ⟨0, 0⟩, .initial, .string "3", .string "12", rfl, rfl, rfl, rfl, rfl, ?_⟩,
    ⟨_, _, ⟨0, 0⟩, .initial, .integer 1, .decimal ⟨1, 0⟩, rfl, rfl, rfl, rfl, rfl, nofun⟩,
    _, rfl, _, _, ⟨0, 0⟩,
      ⟨(Machine.initial.scopes.bindVariable Machine.root "a" (.integer 1)).bindVariable
        Machine.root "b" (.integer 2), Machine.root, .unlimited, ""⟩, .integer 1, .integer 2,
      rfl, rfl, rfl, rfl, rfl, ?_⟩
  all_goals simp [Value.integer, Value.string, Value.of, Value.datum]

/-- If names are spelled apart and operators nest by a rule, what is accepted at a place is told by
its text. -/
theorem eq_of_expr_eq {e₁ e₂ : Source.Expr} {t₁ t₂ : Typed.Expr} (hs : SpelledApart r c)
    (h₁ : Typing.checkExpr r c e₁ = .ok t₁) (h₂ : Typing.checkExpr r c e₂ = .ok t₂)
    (hl₁ : t₁.Legible rule) (hl₂ : t₂.Legible rule) (htext : expr t₁ = expr t₂) : t₁ = t₂ := by
  obtain ⟨ts, hts⟩ := spells_of_check hs e₁ h₁ hl₁
  obtain ⟨ts', hts'⟩ := spells_of_check hs e₂ h₂ hl₂
  have heq : ts = ts' := by
    apply row_inj (hts.phrase hs).toRow (hts'.phrase hs).toRow
    rw [hts.text_eq, hts'.text_eq, htext]
  subst heq
  exact hts.unique hs hts'

/-- If names are spelled apart and operators nest by a rule, a text determines the outcome of the
expressions that are accepted at a place. -/
theorem text_determines {e₁ e₂ : Source.Expr} {t₁ t₂ : Typed.Expr} (hs : SpelledApart r c)
    (h₁ : Typing.checkExpr r c e₁ = .ok t₁) (h₂ : Typing.checkExpr r c e₂ = .ok t₂)
    (hl₁ : t₁.Legible rule) (hl₂ : t₂.Legible rule) (htext : expr t₁ = expr t₂) (budget : Budget)
    (m : Machine) : (evaluate r budget t₁).run m = (evaluate r budget t₂).run m := by
  rw [eq_of_expr_eq hs h₁ h₂ hl₁ hl₂ htext]

/-- Differences of which one is grouped. -/
def difference : Source.Expr :=
  .binary (.arithmetic .subtract)
    (.binary (.arithmetic .subtract) (.literal (.integer 1)) (.literal (.integer 2)))
    (.group (.binary (.arithmetic .subtract) (.literal (.integer 3)) (.literal (.integer 4))))

/-- Nests operators to the left. -/
def leftmost (operators : List Operator) : Nat :=
  operators.length - 1

theorem spelledApart_builtin : SpelledApart .builtin .initial := by
  refine spelledApart_of_plain .builtin (fun h => nomatch h) fun h => ?_
  rw [Typing.sees_initial.lookupFunction, Environment.findFunction?, Environment.initial,
    Table.get?_cons] at h
  split_ifs at h
  · cases h
    exact .inr rfl
  · cases h

theorem text_determines_difference : ∃ t,
    Typing.checkExpr .builtin .initial difference = .ok t ∧ SpelledApart .builtin .initial ∧
    t.Legible leftmost ∧ expr t = "1 - 2 - (3 - 4)" ∧
    ∀ e t', Typing.checkExpr .builtin .initial e = .ok t' → t'.Legible leftmost →
      expr t' = "1 - 2 - (3 - 4)" →
      (evaluate .builtin ⟨0, 0⟩ t').run .initial = some (.ok (.integer 0), .initial) := by
  obtain ⟨t, ht⟩ : ∃ t, Typing.checkExpr .builtin .initial difference = .ok t := ⟨_, rfl⟩
  have hl : t.Legible leftmost := by
    cases ht
    simp [Typed.Expr.Legible, Typed.Expr.operators, Literal.Apart, leftmost]
  have htext : expr t = "1 - 2 - (3 - 4)" := by
    cases ht
    rfl
  have hvalue : (evaluate .builtin ⟨0, 0⟩ t).run .initial = some (.ok (.integer 0), .initial) := by
    cases ht
    rfl
  refine ⟨t, ht, spelledApart_builtin, hl, htext, fun e t' ht' hl' htext' => ?_⟩
  rw [text_determines spelledApart_builtin ht' ht hl' hl (htext'.trans htext.symm), hvalue]

end TypedImp.Render
