import TypedImp.Proofs.Machine.Session
import TypedImp.Proofs.Machine.Simulation

/-!
# Calls are isolated

A method reaches the outermost scope, the members of objects and the scopes of its own call and of
what it calls, but no scope of its caller. Main statement (`calls_isolated`): an evaluation leaves
all local scopes as they are, and calling a method in two machines with the same outer scopes has
the same outcome and does the same to these scopes, whatever local scopes the machines have. The
proof runs both calls side by side, in scopes whose places differ by the number of local scopes
that were there before (`Counterpart`).
-/

namespace TypedImp

/-- The same outer scope, or local scopes that are as far behind the first `n` and the first
`n'`. -/
def Counterpart (k n n' : Nat) (s s' : ScopeId) : Prop :=
  s.index < k ∧ s'.index = s.index ∨ n ≤ s.index ∧ s'.index + n = s.index + n'

namespace Counterpart

variable {k n n' : Nat} {s s' t t' : ScopeId}

theorem outer (h : s.index < k) : Counterpart k n n' s s :=
  .inl ⟨h, rfl⟩

theorem eq_iff (hk : k ≤ n) (hk' : k ≤ n') (hs : Counterpart k n n' s s')
    (ht : Counterpart k n n' t t') : s = t ↔ s' = t' := by
  obtain ⟨s⟩ := s
  obtain ⟨s'⟩ := s'
  obtain ⟨t⟩ := t
  obtain ⟨t'⟩ := t'
  simp only [Counterpart, ScopeId.mk.injEq] at hs ht ⊢
  omega

theorem lt_iff (hk : k ≤ n) (hk' : k ≤ n') (hs : Counterpart k n n' s s') (i : Nat) :
    s.index < n + i ↔ s'.index < n' + i := by
  unfold Counterpart at hs
  omega

theorem next {a b : Arena Value Callable} {j : Nat} (ha : a.size = n + j) (hb : b.size = n' + j) :
    Counterpart k n n' a.next b.next := by
  simp only [Counterpart, Arena.next]
  omega

theorem lt (hk : k ≤ n) (hk' : k ≤ n') (hs : Counterpart k n n' s s')
    (ht : Counterpart k n n' t t') (h : s.index < t.index) : s'.index < t'.index := by
  unfold Counterpart at hs ht
  omega

end Counterpart

/-- The scopes bind the same and lie inside counterparts. -/
structure Scope.Matches (k n n' : Nat) (scope scope' : Scope Value Callable) : Prop where
  vars : scope'.vars = scope.vars
  funs : scope'.funs = scope.funs
  parent : Option.Rel (Counterpart k n n') scope.parent scope'.parent

namespace Arena

/-- Counterparts match, up to the `j`-th local scope after the first `n` and the first `n'`. -/
structure Shifted (k n n' j : Nat) (a b : Arena Value Callable) : Prop where
  le : k ≤ n
  le' : k ≤ n'
  size : a.size = n + j
  size' : b.size = n' + j
  scopes {s s' : ScopeId} (h : Counterpart k n n' s s') :
    Option.Rel (Scope.Matches k n n') (a.get? s) (b.get? s')

namespace Shifted

variable {k n n' j : Nat} {a b : Arena Value Callable} {s s' t t' : ScopeId}
  {l : List (ScopeId × Scope Value Callable)} {name : String} {v : Value}

theorem enter (h : Shifted k n n' j a b) {p p' : ScopeId} (hp : Counterpart k n n' p p') :
    Shifted k n n' (j + 1) (a.enter (some p)) (b.enter (some p')) where
  le := h.le
  le' := h.le'
  size := by rw [size_enter, h.size, Nat.add_assoc]
  size' := by rw [size_enter, h.size', Nat.add_assoc]
  scopes hs := by
    have hnext := Counterpart.eq_iff h.le h.le' hs (.next h.size h.size')
    rw [get?_enter, get?_enter]
    split_ifs with h₁ h₂ h₂
    · exact .some ⟨rfl, rfl, .some hp⟩
    · exact absurd (hnext.1 h₁) h₂
    · exact absurd (hnext.2 h₂) h₁
    · exact h.scopes hs

theorem exit {i : Nat} (h : Shifted k n n' j a b) (hi : i ≤ j) :
    Shifted k n n' i (a.exit ⟨n + i⟩) (b.exit ⟨n' + i⟩) where
  le := h.le
  le' := h.le'
  size := by
    rw [size_exit, h.size]
    exact Nat.min_eq_left (Nat.add_le_add_left hi n)
  size' := by
    rw [size_exit, h.size']
    exact Nat.min_eq_left (Nat.add_le_add_left hi n')
  scopes hs := by
    have hlt := Counterpart.lt_iff h.le h.le' hs i
    rw [get?_exit, get?_exit]
    split_ifs with h₁ h₂ h₂
    · exact h.scopes hs
    · exact absurd (hlt.1 h₁) h₂
    · exact absurd (hlt.2 h₂) h₁
    · exact .none

theorem bindVariable (h : Shifted k n n' j a b) (ht : Counterpart k n n' t t') :
    Shifted k n n' j (a.bindVariable t name v) (b.bindVariable t' name v) where
  le := h.le
  le' := h.le'
  size := (size_modify ..).trans h.size
  size' := (size_modify ..).trans h.size'
  scopes {s s'} hs := by
    have heq := Counterpart.eq_iff h.le h.le' hs ht
    have hrel := h.scopes hs
    unfold Arena.bindVariable
    rw [get?_modify, get?_modify]
    generalize a.get? s = o, b.get? s' = o' at hrel
    split_ifs with h₁ h₂ h₂
    · cases hrel with
      | none => exact .none
      | some hm =>
        refine .some ⟨?_, hm.funs, hm.parent⟩
        simp only [Scope.bindVariable, hm.vars]
    · exact absurd (heq.1 h₁) h₂
    · exact absurd (heq.2 h₂) h₁
    · exact hrel

/-- The chains of counterparts consist of counterparts. -/
theorem path (h : Shifted k n n' j a b) (hl : a.Path s l) : ∀ {s' : ScopeId},
    Counterpart k n n' s s' → ∃ l', b.Path s' l' ∧ List.Forall₂
      (fun q q' => Counterpart k n n' q.1 q'.1 ∧ q.2.Matches k n n' q'.2) l l' := by
  induction hl with
  | root live top =>
    intro s' hs
    have hrel := h.scopes hs
    rw [live] at hrel
    rcases hb : b.get? s' with _ | scope' <;> rw [hb] at hrel <;> cases hrel
    rename_i hm
    have hparent := hm.parent
    rw [top] at hparent
    exact ⟨_, .root hb (by cases h : scope'.parent <;> simp_all), .cons ⟨hs, hm⟩ .nil⟩
  | child live parent before _ ih =>
    intro s' hs
    have hrel := h.scopes hs
    rw [live] at hrel
    rcases hb : b.get? s' with _ | scope' <;> rw [hb] at hrel <;> cases hrel
    rename_i hm
    have hparent := hm.parent
    rw [parent] at hparent
    rcases hp : scope'.parent with _ | p' <;> rw [hp] at hparent <;> cases hparent
    rename_i hcp
    obtain ⟨l', hl', hall⟩ := ih hcp
    exact ⟨_, .child hb hp (Counterpart.lt h.le h.le' hcp hs before) hl', .cons ⟨hs, hm⟩ hall⟩

theorem findSome?_of_forall₂ {α β γ δ : Type} {R : α → β → Prop} {R' : γ → δ → Prop}
    {f : α → Option γ} {g : β → Option δ} (hfg : ∀ x y, R x y → Option.Rel R' (f x) (g y)) :
    ∀ {xs : List α} {ys : List β}, List.Forall₂ R xs ys →
      Option.Rel R' (xs.findSome? f) (ys.findSome? g)
  | [], [], .nil => .none
  | x :: xs, y :: ys, .cons h hs => by
    have hhead := hfg x y h
    rw [List.findSome?_cons, List.findSome?_cons]
    generalize f x = o, g y = o' at hhead
    cases hhead with
    | none => exact findSome?_of_forall₂ hfg hs
    | some h => exact .some h

theorem findVariable? (h : Shifted k n n' j a b) (hl : a.Path s l)
    (hs : Counterpart k n n' s s') (name : String) :
    Option.Rel (fun p p' => Counterpart k n n' p.1 p'.1 ∧ p'.2 = p.2)
      (a.findVariable? s name) (b.findVariable? s' name) := by
  obtain ⟨l', hl', hall⟩ := h.path hl hs
  rw [hl.findVariable?, hl'.findVariable?]
  refine findSome?_of_forall₂ (fun q q' hq => ?_) hall
  rw [hq.2.vars]
  cases q.2.vars.get? name with
  | none => exact .none
  | some v => exact .some ⟨hq.1, rfl⟩

theorem lookupVariable (h : Shifted k n n' j a b) (hl : a.Path s l)
    (hs : Counterpart k n n' s s') (name : String) :
    b.lookupVariable s' name = a.lookupVariable s name := by
  obtain ⟨l', hl', -⟩ := h.path hl hs
  have hfind := h.findVariable? hl hs name
  unfold Arena.lookupVariable
  rw [hl.chain, hl'.chain]
  generalize a.findVariable? s name = o, b.findVariable? s' name = o' at hfind
  cases hfind with
  | none => rfl
  | some hp => exact congrArg Except.ok hp.2

theorem functions_of_forall₂ {l l' : List (ScopeId × Scope Value Callable)}
    (h : List.Forall₂ (fun q q' => Counterpart k n n' q.1 q'.1 ∧ q.2.Matches k n n' q'.2) l l') :
    l'.map (·.2.funs) = l.map (·.2.funs) := by
  induction h with
  | nil => rfl
  | cons h _ ih => rw [List.map_cons, List.map_cons, h.2.funs, ih]

theorem lookupFunction (h : Shifted k n n' j a b) (hl : a.Path s l)
    (hs : Counterpart k n n' s s') (name : String) (arity : Nat) :
    b.lookupFunction s' name arity = a.lookupFunction s name arity := by
  obtain ⟨l', hl', hall⟩ := h.path hl hs
  have hfuns := functions_of_forall₂ hall
  have hfind : b.findFunction? s' name arity = a.findFunction? s name arity := by
    have := congrArg (List.findSome? (·.get? (name, arity))) hfuns
    rw [List.findSome?_map, List.findSome?_map] at this
    rw [hl.findFunction?, hl'.findFunction?]
    exact this
  have harities : b.arities s' name = a.arities s name := by
    have := congrArg (List.flatMap fun t => (t.keys.filter (·.1 = name)).map Prod.snd) hfuns
    rw [List.flatMap_map, List.flatMap_map] at this
    unfold Arena.arities
    rw [hl.chain, hl'.chain]
    exact congrArg increasing this
  unfold Arena.lookupFunction
  rw [hfind, harities, hl.chain, hl'.chain]
  rfl

theorem defineVariable (h : Shifted k n n' j a b) (hs : Counterpart k n n' s s')
    (hlive : s.index < a.size) (name : String) (v : Value) :
    (a.defineVariable s name v = .ok (a.bindVariable s name v) ∧
      b.defineVariable s' name v = .ok (b.bindVariable s' name v)) ∨
    ∃ e, a.defineVariable s name v = .error e ∧ b.defineVariable s' name v = .error e := by
  obtain ⟨scope, hscope⟩ := exists_get? hlive
  have hrel := h.scopes hs
  unfold Arena.defineVariable
  rw [hscope] at hrel ⊢
  rcases hb : b.get? s' with _ | scope' <;> rw [hb] at hrel <;> cases hrel
  rename_i hm
  simp only [hm.vars]
  split_ifs
  · exact .inr ⟨_, rfl, rfl⟩
  · exact .inl ⟨rfl, rfl⟩

theorem setVariable (h : Shifted k n n' j a b) (hl : a.Path s l)
    (hs : Counterpart k n n' s s') (name : String) (v : Value) :
    (∃ t t' old, Counterpart k n n' t t' ∧
      a.setVariable s name v = .ok (old, a.bindVariable t name v) ∧
      b.setVariable s' name v = .ok (old, b.bindVariable t' name v)) ∨
    ∃ e, a.setVariable s name v = .error e ∧ b.setVariable s' name v = .error e := by
  obtain ⟨l', hl', -⟩ := h.path hl hs
  have hfind := h.findVariable? hl hs name
  rw [Arena.setVariable_eq, Arena.setVariable_eq, hl.chain, hl'.chain]
  generalize a.findVariable? s name = o, b.findVariable? s' name = o' at hfind
  cases hfind with
  | none => exact .inr ⟨_, rfl, rfl⟩
  | @some p p' hp =>
    obtain ⟨t, old⟩ := p
    obtain ⟨t', old'⟩ := p'
    obtain ⟨ht, rfl⟩ := hp
    exact .inl ⟨t, t', _, ht, rfl, rfl⟩

end Shifted

end Arena

open Exec

/-- The machines were `b` and `b'` when two runs began in them, and the runs have come equally far:
they have entered the same scopes and printed the same text since. -/
structure Machine.Abreast {r : Registry} (S : Stock r) (k : Nat) (b b' : Machine) (j : Nat)
    (m m' : Machine) : Prop where
  stocked : S.Stocked m
  laid : m.Laid k
  scopes : m.scopes.Shifted k b.scopes.size b'.scopes.size j m'.scopes
  current : Counterpart k b.scopes.size b'.scopes.size m.current m'.current
  sink : m.sink = b.sink
  sink' : m'.sink = b'.sink
  output : ∃ text, m.output = b.output ++ text ∧ m'.output = b'.output ++ text

namespace Machine.Abreast

variable {r : Registry} {S : Stock r} {k : Nat} {b b' m m' m₁ m₁' : Machine} {j : Nat}
  {s s' t t' : ScopeId} {object v : Value}

theorem lookupVariable (h : Abreast S k b b' j m m') (name : String) :
    m'.lookupVariable name = m.lookupVariable name := by
  obtain ⟨l, hl⟩ := h.laid.path h.laid.current_lt
  exact h.scopes.lookupVariable hl h.current name

theorem lookupFunction (h : Abreast S k b b' j m m') (name : String) (arity : Nat) :
    m'.lookupFunction name arity = m.lookupFunction name arity := by
  obtain ⟨l, hl⟩ := h.laid.path h.laid.current_lt
  exact h.scopes.lookupFunction hl h.current name arity

theorem memberVariable (h : Abreast S k b b' j m m') (hs : s.index < k) (name : String) :
    m'.scopes.lookupVariable s name = m.scopes.lookupVariable s name := by
  obtain ⟨l, hl⟩ := h.laid.path (Nat.lt_of_lt_of_le hs h.laid.le_size)
  exact h.scopes.lookupVariable hl (.outer hs) name

theorem memberFunction (h : Abreast S k b b' j m m') (hs : s.index < k) (name : String)
    (arity : Nat) :
    m'.scopes.lookupFunction s name arity = m.scopes.lookupFunction s name arity := by
  obtain ⟨l, hl⟩ := h.laid.path (Nat.lt_of_lt_of_le hs h.laid.le_size)
  exact h.scopes.lookupFunction hl (.outer hs) name arity

theorem readField (h : Abreast S k b b' j m m') (hS : S.Outer k) (ho : S.good object)
    (name : String) : m'.readField r object name = m.readField r object name := by
  unfold Machine.readField
  rcases hmembers : object.members with _ | s
  · rfl
  · rw [Option.map_some, Option.map_some, h.memberVariable (hS.members ho hmembers)]

theorem resolveMethod (h : Abreast S k b b' j m m') (hS : S.Outer k) (ho : S.good object)
    (name : String) (arity : Nat) :
    m'.resolveMethod r object name arity = m.resolveMethod r object name arity := by
  unfold Machine.resolveMethod
  rcases hmembers : object.members with _ | s
  · rfl
  · rw [Option.map_some, Option.map_some, h.memberFunction (hS.members ho hmembers)]

theorem bindVariable (h : Abreast S k b b' j m m')
    (ht : Counterpart k b.scopes.size b'.scopes.size t t') (hv : S.good v) (name : String) :
    Abreast S k b b' j { m with scopes := m.scopes.bindVariable t name v }
      { m' with scopes := m'.scopes.bindVariable t' name v } where
  stocked := Arena.Fills.bindVariable h.stocked t name hv
  laid := h.laid.of_aligned (aligned_bindVariable ..)
  scopes := h.scopes.bindVariable ht
  current := h.current
  sink := h.sink
  sink' := h.sink'
  output := h.output

theorem define (h : Abreast S k b b' j m m') (hv : S.good v) (name : String) :
    Alike (Abreast S k b b' j) (Exec.defineVariable name v) (Exec.defineVariable name v) m m'
      fun _ => True := by
  refine alike_get_bind ?_
  unfold Alike
  rw [run_lift_bind, run_lift_bind]
  rcases h.scopes.defineVariable h.current h.laid.current_lt name v with ⟨hm, hm'⟩ | ⟨e, hm, hm'⟩
  · rw [hm, hm']
    exact .some ⟨rfl, h.bindVariable h.current hv name, fun _ _ => trivial⟩
  · rw [hm, hm']
    exact .some ⟨rfl, h, fun _ _ => trivial⟩

theorem assign (h : Abreast S k b b' j m m')
    (hs : Counterpart k b.scopes.size b'.scopes.size s s') (hlive : s.index < m.scopes.size)
    (hv : S.good v) (name : String) :
    Alike (Abreast S k b b' j) (Exec.setVariable s name v) (Exec.setVariable s' name v) m m'
      fun _ => True := by
  obtain ⟨l, hl⟩ := h.laid.path hlive
  refine alike_get_bind ?_
  unfold Alike
  rw [run_lift_bind, run_lift_bind]
  rcases h.scopes.setVariable hl hs name v with ⟨t, t', old, ht, hm, hm'⟩ | ⟨e, hm, hm'⟩
  · rw [hm, hm']
    exact .some ⟨rfl, h.bindVariable ht hv name, fun _ _ => trivial⟩
  · rw [hm, hm']
    exact .some ⟨rfl, h, fun _ _ => trivial⟩

theorem enter (h : Abreast S k b b' j m m') {p p' : ScopeId}
    (hp : Counterpart k b.scopes.size b'.scopes.size p p') (hlaid : (entered m p).Laid k) :
    Abreast S k b b' (j + 1) (entered m p) (entered m' p') where
  stocked := h.stocked.entered p
  laid := hlaid
  scopes := h.scopes.enter hp
  current := .next h.scopes.size h.scopes.size'
  sink := h.sink
  sink' := h.sink'
  output := h.output

theorem leave (h : Abreast S k b b' j m m') (h₁ : Abreast S k b b' (j + 1) m₁ m₁') :
    Abreast S k b b' j (left m m₁) (left m' m₁') where
  stocked := Arena.Fills.exit h₁.stocked _
  laid := h.laid.left h₁.laid (by rw [h.scopes.size, h₁.scopes.size]; omega)
  scopes := by
    have := h₁.scopes.exit (Nat.le_succ j)
    rw [← h.scopes.size, ← h.scopes.size'] at this
    exact this
  current := h.current
  sink := h₁.sink
  sink' := h₁.sink'
  output := h₁.output

end Machine.Abreast

/-- Runs that began with the same sink behind them stay abreast. -/
def Simulation.abreast {r : Registry} {S : Stock r} {k : Nat} (hS : S.Outer k) {b b' : Machine}
    (hsink : ∀ text line,
      b'.sink.refuse (b'.output ++ text) line = b.sink.refuse (b.output ++ text) line) :
    Simulation S r where
  Rel := Machine.Abreast S k b b'
  stocked h := h.stocked
  lookupVariable h := h.lookupVariable
  known _ := True
  calls _ _ _ := trivial
  lookupFunction h _ _ _ := h.lookupFunction _ _
  readField h := h.readField hS
  resolveMethod h := h.resolveMethod hS
  refuse h line := by
    obtain ⟨text, hm, hm'⟩ := h.output
    rw [h.sink, h.sink', hm, hm']
    exact hsink text line
  print h text := by
    obtain ⟨before, hm, hm'⟩ := h.output
    refine { h with laid := { h.laid with }, output := ⟨before ++ text, ?_, ?_⟩ }
    · rw [hm, String.append_assoc]
    · rw [hm', String.append_assoc]
  define h := h.define
  assign h := h.assign h.current h.laid.current_lt
  assignMember h _ _ _ ho hs hv := by
    have hlt := hS.members ho hs
    exact h.assign (.outer hlt) (Nat.lt_of_lt_of_le hlt h.laid.le_size) hv
  block h := h.enter h.current h.laid.entered_current
  body h _ _ _ hc := by
    obtain rfl := hS.closure hc
    exact h.enter (.outer h.laid.pos) h.laid.entered_root
  leave h := h.leave

/-! ## Calls from different places -/

theorem Machine.Abreast.outer_eq {r : Registry} {S : Stock r} {k j : Nat} {b b' m m' : Machine}
    (h : Abreast S k b b' j m m') {s : ScopeId} (hs : s.index < k) :
    m'.scopes.get? s = m.scopes.get? s := by
  have hrel := h.scopes.scopes (.outer hs)
  have htop := h.laid.outer s hs
  unfold Arena.parent? at htop
  generalize m.scopes.get? s = o, m'.scopes.get? s = o' at hrel htop
  cases hrel with
  | none => rfl
  | @some scope scope' hm =>
    obtain ⟨vars, funs, parent⟩ := scope
    obtain ⟨vars', funs', parent'⟩ := scope'
    obtain ⟨rfl, rfl, hparent⟩ := hm
    obtain rfl : parent = Option.none := htop
    cases hparent
    rfl

/-- Machines with the same outer scopes are abreast once each has entered a call. -/
theorem Machine.abreast_entered {r : Registry} {S : Stock r} {k : Nat} {m m' : Machine}
    (hm : S.Stocked m) (hl : m.Laid k) (hk : k ≤ m'.scopes.size)
    (houter : ∀ s, s.index < k → m'.scopes.get? s = m.scopes.get? s) :
    Abreast S k m m' 1 (entered m root) (entered m' root) where
  stocked := hm.entered root
  laid := hl.entered_root
  scopes := by
    refine Arena.Shifted.enter (j := 0) ⟨hl.le_size, hk, rfl, rfl, fun {s s'} hs => ?_⟩
      (.outer hl.pos)
    rcases hs with ⟨hs, hs'⟩ | ⟨hs, hs'⟩
    · obtain ⟨i⟩ := s
      obtain ⟨i'⟩ := s'
      obtain rfl : i' = i := hs'
      have htop := hl.outer _ hs
      rw [houter _ hs]
      unfold Arena.parent? at htop
      generalize m.scopes.get? _ = o at htop
      cases o with
      | none => exact .none
      | some scope =>
        refine .some ⟨rfl, rfl, ?_⟩
        rw [show scope.parent = none from htop]
        exact .none
    · rw [Arena.get?_eq_none hs, Arena.get?_eq_none (by omega)]
      exact .none
  current := .next (j := 0) rfl rfl
  sink := rfl
  sink' := rfl
  output := ⟨"", (String.append_empty).symm, (String.append_empty).symm⟩

/-- A call has the same outcome, prints the same and does the same to the outer scopes wherever it
is made. -/
theorem alike_call {r : Registry} {S : Stock r} {k : Nat} (hS : S.Outer k) {m m' : Machine}
    (hm : S.Stocked m) (hl : m.Laid k) (hk : k ≤ m'.scopes.size)
    (houter : ∀ s, s.index < k → m'.scopes.get? s = m.scopes.get? s)
    (hsink : ∀ text line,
      m'.sink.refuse (m'.output ++ text) line = m.sink.refuse (m.output ++ text) line)
    {key : String × Nat} {method : Typed.Method} {closure : ScopeId} {values : List Value}
    (hc : S.bound key (.method method closure)) (hvalues : ∀ v ∈ values, S.good v)
    (rounds : Nat) : ∀ depth : Nat,
    Alike (fun m₁ m₁' =>
        (∃ text, m₁.output = m.output ++ text ∧ m₁'.output = m'.output ++ text) ∧
        ∀ s, s.index < k → m₁'.scopes.get? s = m₁.scopes.get? s)
      (callMethod r rounds depth method closure values)
      (callMethod r rounds depth method closure values) m m' S.good
  | 0 => alike_exhausted
  | depth + 1 => by
    obtain rfl := hS.closure hc
    unfold callMethod
    split_ifs
    · exact alike_throw ⟨⟨"", String.append_empty.symm, String.append_empty.symm⟩, houter⟩
    · refine alike_inScope (Simulation.alike_body (M := .abreast hS hsink)
        (Simulation.pairs_callMethod _ rounds depth) (fun _ _ => trivial) hvalues
        (Machine.abreast_entered hm hl hk houter)) fun m₁ m₁' h => ⟨h.output, fun s hs => ?_⟩
      refine (Machine.get?_left (Nat.lt_of_lt_of_le hs hk)).trans ?_
      refine (h.outer_eq hs).trans (Machine.get?_left ?_).symm
      exact Nat.lt_of_lt_of_le hs hl.le_size

/-- Evaluation leaves local scopes alone, and what a method does is the same whatever local scopes
there are where it is called. -/
theorem calls_isolated {r : Registry} {σ σ' : Session} {m m' : Machine}
    (hσ : Session.Reached r σ) (hσ' : Session.Reached r σ') (hm : σ.During r m)
    (hm' : σ'.During r m') (budget : Budget) :
    (∀ e outcome m₁, (evaluate r budget e).run m = some (outcome, m₁) →
      ∀ s, s ≠ Machine.root → s ∉ σ.objects → m₁.scopes.get? s = m.scopes.get? s) ∧
    (σ'.objects = σ.objects →
      (∀ s, s = Machine.root ∨ s ∈ σ.objects → m'.scopes.get? s = m.scopes.get? s) →
      (∀ text line,
        m'.sink.refuse (m'.output ++ text) line = m.sink.refuse (m.output ++ text) line) →
      ∀ name arity method closure values,
        m.lookupFunction name arity = .ok (.method method closure) →
        (∀ v ∈ values, v.Over σ.objects) →
        Alike (fun m₁ m₁' =>
            (∃ text, m₁.output = m.output ++ text ∧ m₁'.output = m'.output ++ text) ∧
            ∀ s, s = Machine.root ∨ s ∈ σ.objects → m₁'.scopes.get? s = m₁.scopes.get? s)
          ((Context.within r budget).invoke (.method method closure) values)
          ((Context.within r budget).invoke (.method method closure) values) m m'
          (Value.Over σ.objects)) := by
  have hsound := hσ.sound
  have hS := hsound.outer hm.1.registry
  have hstocked := (hm.covers hsound).2
  have hlaid := hm.laid hsound
  constructor
  · intro e outcome m₁ hrun s hroot hs
    have hserves : (Session.stock hm.1.registry).Serves (.within r budget) :=
      Stock.serves_within _ budget
    have heffect := (Stock.evaluates_evaluate rfl hserves e hstocked _ _ hrun).1
    refine heffect.spares_locals hS hlaid (Nat.le_of_not_lt fun hlt => ?_)
    exact (hsound.outer_iff.2 hlt).elim hroot hs
  · intro hobjects houter hsink name arity method closure values hf hvalues
    simp only [hsound.outer_iff] at houter ⊢
    have hk := (hm'.laid hσ'.sound).le_size
    rw [hsound.size_eq hσ'.sound hobjects] at hk
    exact alike_call hS hstocked hlaid hk houter hsink (hstocked.lookupFunction hf) hvalues
      budget.rounds budget.depth

/-- A method that keeps its argument in a variable of the program. -/
def Typed.Method.keep : Typed.Method where
  function := .plain "keep" [.integer] .integer
  parameters := ["n"]
  body := [
    .assignment (.var (.plain "kept" .integer) .integer) (.var (.plain "n" .integer) .integer),
    .ret (.var (.plain "kept" .integer) .integer)]

/-- Calls `keep` with some variables around. -/
def Typed.Program.keeping : Typed.Program where
  fields := [⟨.plain "kept" .integer, some (.literal (.integer 0) .integer)⟩]
  methods := [.keep,
    { function := .plain "main" [] .integer
      parameters := []
      body := [
        .declaration (.plain "x" .integer) (some (.literal (.integer 1) .integer)),
        .conditional (.literal (.boolean true) .boolean)
          [.declaration (.plain "n" .integer) (some (.literal (.integer 2) .integer)),
            .ret (.call Typed.Method.keep.function [.literal (.integer 3) .integer] .integer)]
          []] }]

theorem calls_isolated_keeping : ∃ m m',
    Session.initial.During .builtin m ∧ Session.initial.During .builtin m' ∧
    m.scopes.size = 2 ∧ m'.scopes.size = 3 ∧
    m.lookupFunction "keep" 1 = .ok (.method .keep Machine.root) ∧
    Alike (fun m₁ m₁' =>
        (∃ text, m₁.output = m.output ++ text ∧ m₁'.output = m'.output ++ text) ∧
        ∀ s, s = Machine.root ∨ s ∈ Session.initial.objects →
          m₁'.scopes.get? s = m₁.scopes.get? s)
      ((Context.within .builtin ⟨1, 0⟩).invoke (.method .keep Machine.root) [.integer 3])
      ((Context.within .builtin ⟨1, 0⟩).invoke (.method .keep Machine.root) [.integer 3]) m m'
      (Value.Over Session.initial.objects) := by
  have hhonest := Session.honest_initial Registry.keeps_builtin
  have hbody : Relation.ReflTransGen (Moment.Part .builtin 0)
      ⟨2, .program .keeping, .initial⟩ ⟨1, .block _, _⟩ :=
    .tail (.tail (.tail .refl (.nextField (by rfl) (by rfl))) (.main (by rfl) (by rfl)))
      (.body (by rfl) (by rfl))
  have hblock : Relation.ReflTransGen (Moment.Part .builtin 0)
      ⟨2, .program .keeping, .initial⟩ ⟨1, .block _, _⟩ :=
    .tail (.tail (.tail (.tail hbody (.tail (by rfl))) .head) (.thenBody (by rfl))) (.tail (by rfl))
  have hm : Session.initial.During .builtin _ := ⟨hhonest, 0, _, _, hbody, rfl, trivial, rfl⟩
  have hm' : Session.initial.During .builtin _ := ⟨hhonest, 0, _, _, hblock, rfl, trivial, rfl⟩
  refine ⟨_, _, hm, hm', rfl, rfl, rfl, ?_⟩
  refine (calls_isolated .refl .refl hm hm' ⟨1, 0⟩).2 rfl ?_ (fun _ _ => rfl) "keep" 1 _ _ _ rfl ?_
  · rintro s (rfl | h)
    · rfl
    · cases h
  · simp only [List.mem_singleton, forall_eq]
    exact Value.over_of _ fun _ h => nomatch h

end TypedImp
