import TypedImp.Proofs.Machine.Effect

/-!
# The scopes of a run

However an expression or a statement ends, it leaves the scopes where they were: the same scopes
are live, inside the same parents and with the same functions and variables, and the machine is in
the same one of them. Only the values of variables differ, and a declaration that succeeds adds its
variable to the scope that the machine is in (`scopes_kept`). No assumption is made on the machine.
-/

namespace TypedImp

namespace Arena

variable {V F : Type} {a b : Arena V F} {s t : ScopeId} {name : String}

/-- The scope is live and binds the variable itself. -/
def Binds (a : Arena V F) (s : ScopeId) (name : String) : Prop :=
  ∃ scope, a.get? s = some scope ∧ (scope.vars.get? name).isSome

/-- The functions that a live scope binds itself. -/
def functions? (a : Arena V F) (s : ScopeId) : Option (Table (String × Nat) F) :=
  (a.get? s).map (·.funs)

/-- The scope is live and binds the function itself. -/
def BindsFunction (a : Arena V F) (s : ScopeId) (key : String × Nat) : Prop :=
  ∃ scope, a.get? s = some scope ∧ (scope.funs.get? key).isSome

theorem binds_congr (h : b.get? s = a.get? s) : b.Binds s name ↔ a.Binds s name := by
  unfold Binds
  rw [h]

theorem not_binds_of_none (h : a.get? s = none) : ¬ a.Binds s name := by
  rintro ⟨scope, hs, -⟩
  cases h.symm.trans hs

theorem binds_bindVariable {v : V} {n : String} :
    (a.bindVariable t name v).Binds s n ↔
      a.Binds s n ∨ (s = t ∧ n = name ∧ ∃ scope, a.get? t = some scope) := by
  unfold Binds bindVariable
  rw [get?_modify]
  split_ifs with h
  · subst h
    rcases a.get? s with _ | scope
    · simp
    · simp only [Option.map_some, Option.some.injEq, exists_eq_left', Scope.bindVariable,
        Table.get?_insert, true_and, exists_eq', and_true]
      split_ifs with hn <;> simp [hn]
  · simp [h]

@[simp]
theorem functions?_bindVariable (a : Arena V F) (t : ScopeId) (name : String) (v : V)
    (s : ScopeId) : (a.bindVariable t name v).functions? s = a.functions? s := by
  unfold functions? bindVariable
  rw [get?_modify]
  split_ifs
  · cases a.get? s <;> rfl
  · rfl

/-- Whatever is bound in the first arena is bound in the second one too. -/
structure Grown (a b : Arena V F) : Prop where
  size : a.size ≤ b.size
  names (s : ScopeId) (name : String) (h : a.Binds s name) : b.Binds s name
  functions (s : ScopeId) (key : String × Nat) (h : a.BindsFunction s key) : b.BindsFunction s key

namespace Grown

theorem refl (a : Arena V F) : a.Grown a :=
  ⟨Nat.le_refl _, fun _ _ h => h, fun _ _ h => h⟩

theorem trans {c : Arena V F} (h : a.Grown b) (h' : b.Grown c) : a.Grown c where
  size := Nat.le_trans h.size h'.size
  names s name hs := h'.names s name (h.names s name hs)
  functions s key hs := h'.functions s key (h.functions s key hs)

theorem enter (a : Arena V F) (p : Option ScopeId) : a.Grown (a.enter p) where
  size := by rw [size_enter]; omega
  names s name h := by
    obtain ⟨scope, hs, hname⟩ := h
    exact ⟨scope, (get?_enter_of_lt (lt_size_of_get? hs) p).trans hs, hname⟩
  functions s key h := by
    obtain ⟨scope, hs, hkey⟩ := h
    exact ⟨scope, (get?_enter_of_lt (lt_size_of_get? hs) p).trans hs, hkey⟩

theorem modify (a : Arena V F) (t : ScopeId) {f : Scope V F → Scope V F}
    (hvars : ∀ scope name, (scope.vars.get? name).isSome → ((f scope).vars.get? name).isSome)
    (hfuns : ∀ scope key, (scope.funs.get? key).isSome → ((f scope).funs.get? key).isSome) :
    a.Grown (a.modify t f) where
  size := Nat.le_of_eq (size_modify ..).symm
  names s name h := by
    obtain ⟨scope, hs, hname⟩ := h
    unfold Binds
    rw [get?_modify, hs]
    split_ifs
    · exact ⟨_, rfl, hvars scope name hname⟩
    · exact ⟨_, rfl, hname⟩
  functions s key h := by
    obtain ⟨scope, hs, hkey⟩ := h
    unfold BindsFunction
    rw [get?_modify, hs]
    split_ifs
    · exact ⟨_, rfl, hfuns scope key hkey⟩
    · exact ⟨_, rfl, hkey⟩

theorem bindVariable (a : Arena V F) (t : ScopeId) (name : String) (v : V) :
    a.Grown (a.bindVariable t name v) := by
  refine modify a t (fun scope n h => ?_) fun _ _ h => h
  rw [Scope.bindVariable, Table.get?_insert]
  split_ifs
  · rfl
  · exact h

theorem bindFunction (a : Arena V F) (t : ScopeId) (name : String) (arity : Nat) (f : F) :
    a.Grown (a.bindFunction t name arity f) := by
  refine modify a t (fun _ _ h => h) fun scope key h => ?_
  rw [Scope.bindFunction, Table.get?_insert]
  split_ifs
  · rfl
  · exact h

end Grown

end Arena

namespace Machine

/-- Both machines have the same scopes inside the same parents and are in the same one of them. -/
structure Aligned (m m' : Machine) : Prop where
  current : m'.current = m.current
  size : m'.scopes.size = m.scopes.size
  parent (s : ScopeId) : m'.scopes.parent? s = m.scopes.parent? s

/-- Beyond that, both machines print to the same sink, and their scopes bind the same functions and,
but for the variables that are declared in the current scope, the same names. -/
structure Kept (declared : List String) (m m' : Machine) : Prop extends Aligned m m' where
  sink : m'.sink = m.sink
  functions (s : ScopeId) : m'.scopes.functions? s = m.scopes.functions? s
  fresh : ∀ name ∈ declared, ¬ m.scopes.Binds m.current name
  names (s : ScopeId) (name : String) :
    m'.scopes.Binds s name ↔ m.scopes.Binds s name ∨ s = m.current ∧ name ∈ declared

theorem get?_left {m m₁ : Machine} {s : ScopeId} (h : s.index < m.scopes.size) :
    (Exec.left m m₁).scopes.get? s = m₁.scopes.get? s :=
  (Arena.get?_exit ..).trans (if_pos h)

theorem parent?_left {m m₁ : Machine} {s : ScopeId} (h : s.index < m.scopes.size) :
    (Exec.left m m₁).scopes.parent? s = m₁.scopes.parent? s :=
  (Arena.parent?_exit ..).trans (if_pos h)

theorem size_left {m m₁ : Machine} (h : m.scopes.size ≤ m₁.scopes.size) :
    (Exec.left m m₁).scopes.size = m.scopes.size :=
  (Arena.size_exit ..).trans (Nat.min_eq_left h)

theorem aligned_bindVariable (m : Machine) (s : ScopeId) (name : String) (v : Value) :
    m.Aligned { m with scopes := m.scopes.bindVariable s name v } where
  current := rfl
  size := Arena.size_modify ..
  parent := Arena.parent?_bindVariable m.scopes s name v

theorem aligned_bindFunction (m : Machine) (s : ScopeId) (name : String) (arity : Nat)
    (callable : Callable) :
    m.Aligned { m with scopes := m.scopes.bindFunction s name arity callable } where
  current := rfl
  size := Arena.size_modify ..
  parent := Arena.parent?_bindFunction m.scopes s name arity callable

theorem Aligned.trans {m m₁ m₂ : Machine} (h : m.Aligned m₁) (h' : m₁.Aligned m₂) :
    m.Aligned m₂ where
  current := h'.current.trans h.current
  size := h'.size.trans h.size
  parent s := (h'.parent s).trans (h.parent s)

namespace Kept

variable {m m' m₁ m₂ : Machine} {declared declared' : List String}

theorem refl (m : Machine) : Kept [] m m where
  current := rfl
  sink := rfl
  size := rfl
  parent _ := rfl
  functions _ := rfl
  fresh _ h := absurd h List.not_mem_nil
  names s name := by simp

theorem trans (h : Kept declared m m₁) (h' : Kept declared' m₁ m₂) :
    Kept (declared ++ declared') m m₂ where
  toAligned := h.toAligned.trans h'.toAligned
  sink := h'.sink.trans h.sink
  functions s := (h'.functions s).trans (h.functions s)
  fresh name hname hbinds := by
    rcases List.mem_append.1 hname with hname | hname
    · exact h.fresh name hname hbinds
    · exact h'.fresh name hname (h.current ▸ (h.names m.current name).2 (.inl hbinds))
  names s name := by
    rw [h'.names, h.names, h.current, List.mem_append]
    tauto

theorem setVariable {s : ScopeId} {name : String} {old v : Value} {scopes : Arena Value Callable}
    (ok : m.scopes.setVariable s name v = .ok (old, scopes)) :
    Kept [] m { m with scopes } := by
  obtain ⟨t, ht, rfl⟩ := Arena.setVariable_eq_ok.1 ok
  obtain ⟨scope, hs, hget⟩ := Arena.get?_of_findVariable? ht
  refine
    { aligned_bindVariable m _ _ _ with
      sink := rfl
      functions := by simp
      fresh := fun _ h => absurd h List.not_mem_nil
      names := fun u n => ?_ }
  rw [Arena.binds_bindVariable]
  simp only [List.not_mem_nil, and_false, or_false]
  refine ⟨?_, .inl⟩
  rintro (h | ⟨rfl, rfl, -⟩)
  · exact h
  · exact ⟨scope, hs, by rw [hget]; rfl⟩

theorem defineVariable {name : String} {v : Value} {scopes : Arena Value Callable}
    (ok : m.scopes.defineVariable m.current name v = .ok scopes) :
    Kept [name] m { m with scopes } := by
  obtain ⟨⟨scope, hs, hfresh⟩, rfl⟩ := Arena.defineVariable_eq_ok.1 ok
  refine
    { aligned_bindVariable m _ _ _ with
      sink := rfl
      functions := by simp
      fresh := ?_
      names := fun u n => ?_ }
  · simp only [List.mem_singleton]
    rintro n rfl ⟨scope', hs', hbound⟩
    cases hs.symm.trans hs'
    rw [hfresh] at hbound
    cases hbound
  · rw [Arena.binds_bindVariable, List.mem_singleton]
    simp [hs]

/-- What happened in a scope leaves no trace of its shape once that scope is left. -/
theorem left {p : ScopeId} (h : Kept declared (Exec.entered m p) m') :
    Kept [] m (Exec.left m m') := by
  have hsize := h.size.trans (Arena.size_enter ..)
  have hget (s : ScopeId) : (s.index < m.scopes.size ∧
      (Exec.left m m').scopes.get? s = m'.scopes.get? s ∧
      (Exec.entered m p).scopes.get? s = m.scopes.get? s) ∨
      (Exec.left m m').scopes.get? s = none ∧ m.scopes.get? s = none := by
    by_cases hs : s.index < m.scopes.size
    · exact .inl ⟨hs, get?_left hs, Arena.get?_enter_of_lt hs _⟩
    · exact .inr ⟨(Arena.get?_exit ..).trans (if_neg hs), Arena.get?_eq_none (Nat.le_of_not_lt hs)⟩
  refine
    { current := rfl
      sink := h.sink
      size := size_left (hsize ▸ Nat.le_succ _)
      parent := fun s => ?_
      functions := fun s => ?_
      fresh := fun _ h => absurd h List.not_mem_nil
      names := fun s name => ?_ }
  · have := h.parent s
    unfold Arena.parent? at this ⊢
    rcases hget s with ⟨-, hm', hm⟩ | ⟨hm', hm⟩
    · rw [hm', ← hm]
      exact this
    · rw [hm', hm]
  · have := h.functions s
    unfold Arena.functions? at this ⊢
    rcases hget s with ⟨-, hm', hm⟩ | ⟨hm', hm⟩
    · rw [hm', ← hm]
      exact this
    · rw [hm', hm]
  · simp only [List.not_mem_nil, and_false, or_false]
    rcases hget s with ⟨hs, hm', hm⟩ | ⟨hm', hm⟩
    · rw [Arena.binds_congr hm', h.names, Arena.binds_congr hm]
      refine ⟨?_, .inl⟩
      rintro (h | ⟨rfl, -⟩)
      · exact h
      · exact absurd hs (Nat.lt_irrefl _)
    · exact iff_of_false (Arena.not_binds_of_none hm') (Arena.not_binds_of_none hm)

theorem grown (h : m.Kept declared m') :
    m.scopes.Grown m'.scopes where
  size := Nat.le_of_eq h.size.symm
  names s name hs := (h.names s name).2 (.inl hs)
  functions s key hs := by
    obtain ⟨scope, hscope, hkey⟩ := hs
    have hfuns := h.functions s
    rw [Arena.functions?, Arena.functions?, hscope] at hfuns
    obtain ⟨scope', hscope', heq⟩ := Option.map_eq_some_iff.1 hfuns
    exact ⟨scope', hscope', heq ▸ hkey⟩

end Kept

end Machine

def Stretch.declared : Stretch → List String
  | .evaluating => []
  | .executing declared => declared

namespace Stock

variable {r : Registry}

theorem Effect.kept {S : Stock r} {stretch : Stretch} {m m' : Machine}
    (h : S.Effect stretch m m') : m.Kept stretch.declared m' := by
  induction h with
  | rest m => exact .refl m
  | print m text => exact { Machine.Kept.refl m with }
  | call _ _ ih | block _ ih => exact ih.left
  | next _ _ ih ih' | andThen _ _ ih ih' => exact ih.trans ih'
  | evaluate _ ih => exact ih
  | assign _ _ ok => exact .setVariable ok
  | declare _ ok => exact .defineVariable ok

end Stock

/-- Evaluation leaves the shape of the scopes and the names in them as they are, and execution but
for the variable of a declaration that succeeds, whatever the outcome. -/
theorem scopes_kept (r : Registry) (budget : Budget) (m m' : Machine) :
    (∀ e outcome, (evaluate r budget e).run m = some (outcome, m') → m.Kept [] m') ∧
    ∀ st outcome, (execute r budget st).run m = some (outcome, m') →
      m.Kept (st.adds outcome) m' := by
  have hserves : (Stock.all r).Serves (.within r budget) := Stock.serves_within _ budget
  have hm := Stock.stocked_all (r := r) m
  refine ⟨fun e outcome hrun => ?_, fun st outcome hrun => ?_⟩
  · exact (Stock.evaluates_evaluate rfl hserves e hm outcome m' hrun).1.kept
  · obtain ⟨_, heffect, rfl, -⟩ := Stock.executes_execute rfl hserves st hm outcome m' hrun
    exact heffect.kept

/-- A method that divides one by its argument, in a block of its body. -/
def Typed.Method.reciprocal : Typed.Method where
  function := .plain "reciprocal" [.integer] .integer
  parameters := ["n"]
  body := [.conditional (.literal (.boolean true) .boolean)
    [.ret (.binary (.arithmetic .divide) (.literal (.integer 1) .integer)
      (.var (.plain "n" .integer) .integer) .integer)] []]

def Typed.Expr.reciprocal (n : Int) : Typed.Expr :=
  .call Typed.Method.reciprocal.function [.literal (.integer n) .integer] .integer

theorem scopes_kept_reciprocal : ∃ m m₁ m₂,
    Machine.initial.defineFunction "reciprocal" 1 (.method .reciprocal Machine.root) = .ok m ∧
    (evaluate .empty ⟨1, 0⟩ (.reciprocal 0)).run m = some (.error .divisionByZero, m₁) ∧
    (execute .empty ⟨1, 0⟩ (.declaration (.plain "x" .integer) (some (.reciprocal 1)))).run m =
      some (.ok .normal, m₂) ∧
    m.Kept [] m₁ ∧ m.Kept ["x"] m₂ := by
  refine ⟨_, _, _, rfl, by rfl, by rfl, ?_, ?_⟩
  · exact (scopes_kept .empty ⟨1, 0⟩ _ _).1 (.reciprocal 0) _ (by rfl)
  · exact (scopes_kept .empty ⟨1, 0⟩ _ _).2
      (.declaration (.plain "x" .integer) (some (.reciprocal 1))) (.ok .normal) (by rfl)

end TypedImp
