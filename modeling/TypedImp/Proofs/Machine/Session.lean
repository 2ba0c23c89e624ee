import TypedImp.Proofs.Machine.Layout
import TypedImp.Proofs.Machine.Over

/-!
# Sessions

A host makes objects, binds values and functions and has expressions, statements and programs run,
in any order (`Session.Call`). As long as all objects that it passes are its own, the scopes of a
machine between two calls are the outermost one and those of the objects, in the order in which
they were made (`Session.Sound`), and no run lets anything else into a value (`During.stocked`).
-/

namespace TypedImp

/-- A machine and the objects that its host has made, each known by the scope of its members. The
newest object comes first. -/
structure Session where
  objects : List ScopeId
  machine : Machine

/-- A host can ask for this. -/
def Task.Asked : Task → Prop
  | .expr _ | .stmt _ | .program _ => True
  | _ => False

namespace Session

def initial : Session :=
  ⟨[], .initial⟩

/-- No body of the host gives an object that is not in the session. -/
structure Honest (r : Registry) (σ : Session) : Prop where
  registry : r.Keeps σ.objects
  bodies : σ.machine.scopes.Fills (fun _ => True) fun _ callable =>
    ∀ body, callable = .body body → body.Keeps σ.objects

/-- What a host may do, with objects of its own only. Runs may end in any way. -/
inductive Call (r : Registry) : Session → Session → Prop
  | redirect (σ : Session) (sink : Sink) : Call r σ ⟨σ.objects, σ.machine.redirect sink⟩
  | defineVariable {σ : Session} {name : String} {v : Value} {m : Machine}
      (hv : v.Over σ.objects) (h : σ.machine.defineVariable name v = .ok m) :
      Call r σ ⟨σ.objects, m⟩
  | defineFunction {σ : Session} {name : String} {arity : Nat} {body : Body} {m : Machine}
      (h : σ.machine.defineFunction name arity (.body body) = .ok m) : Call r σ ⟨σ.objects, m⟩
  | createObject {σ : Session} {type : TypeId} {datum : Datum} {object : Value} {m : Machine}
      {s : ScopeId} (h : σ.machine.createObject type datum = (object, m))
      (hs : object.members = some s) : Call r σ ⟨s :: σ.objects, m⟩
  | defineMemberVariable {σ : Session} {object : Value} {name : String} {v : Value} {m : Machine}
      (ho : object.Over σ.objects) (hv : v.Over σ.objects)
      (h : σ.machine.defineMemberVariable object name v = .ok m) : Call r σ ⟨σ.objects, m⟩
  | defineMemberFunction {σ : Session} {object : Value} {name : String} {arity : Nat} {body : Body}
      {m : Machine} (ho : object.Over σ.objects)
      (h : σ.machine.defineMemberFunction object name arity body = .ok m) :
      Call r σ ⟨σ.objects, m⟩
  | evaluate {σ : Session} {budget : Budget} {e : Typed.Expr} {outcome : Except Error Value}
      {m : Machine} (hσ : σ.Honest r)
      (h : (evaluate r budget e).run σ.machine = some (outcome, m)) : Call r σ ⟨σ.objects, m⟩
  | execute {σ : Session} {budget : Budget} {st : Typed.Stmt} {outcome : Except Error Flow}
      {m : Machine} (hσ : σ.Honest r)
      (h : (execute r budget st).run σ.machine = some (outcome, m)) : Call r σ ⟨σ.objects, m⟩
  | run {σ : Session} {budget : Budget} {p : Typed.Program} {outcome : Except Error Value}
      {m : Machine} (hσ : σ.Honest r)
      (h : (run r budget p).run σ.machine = some (outcome, m)) : Call r σ ⟨σ.objects, m⟩

/-- The sessions that a host can get to. -/
def Reached (r : Registry) : Session → Prop :=
  Relation.ReflTransGen (Call r) initial

/-- The machine at some moment of what the host has the session run next. -/
def During (r : Registry) (σ : Session) (m : Machine) : Prop :=
  σ.Honest r ∧ ∃ rounds a b, Relation.ReflTransGen (Moment.Part r rounds) a b ∧
    a.machine = σ.machine ∧ a.task.Asked ∧ b.machine = m

/-- What may be bound in a session. -/
def Binding (objects : List ScopeId) : Callable → Prop
  | .body body => body.Keeps objects
  | .print => True
  | .method _ closure => closure = Machine.root

def stock {r : Registry} {objects : List ScopeId} (hr : r.Keeps objects) : Stock r :=
  .over objects (fun _ => Binding objects) hr fun _ _ h => h

/-- Between two calls there are the outermost scope, which the machine is in, and one for each
object. Methods are defined in the outermost one. -/
structure Sound (σ : Session) : Prop where
  nodup : σ.objects.Nodup
  mem_objects (s : ScopeId) : s ∈ σ.objects ↔ 0 < s.index ∧ s.index < σ.machine.scopes.size
  pos : 0 < σ.machine.scopes.size
  parent (s : ScopeId) : σ.machine.scopes.parent? s = none
  current : σ.machine.current = Machine.root
  fills : σ.machine.scopes.Fills (Value.Over σ.objects) fun _ callable =>
    ∀ method closure, callable = .method method closure → closure = Machine.root

variable {r : Registry} {σ σ' : Session} {m : Machine}

namespace Sound

theorem initial : initial.Sound where
  nodup := .nil
  mem_objects s := by
    simp only [Session.initial, List.not_mem_nil, false_iff]
    rintro ⟨h, h'⟩
    exact absurd h' (Nat.not_lt_of_le h)
  pos := Nat.one_pos
  parent s := by
    rw [Session.initial, Machine.initial, Arena.parent?_bindFunction, Arena.parent?_enter]
    simp [Arena.parent?, Arena.get?, Arena.empty]
  current := rfl
  fills := Machine.fills_initial fun _ _ h => nomatch h

/-- The outer scopes are the first ones. -/
theorem outer_iff (hσ : σ.Sound) {s : ScopeId} :
    s = Machine.root ∨ s ∈ σ.objects ↔ s.index < σ.machine.scopes.size := by
  obtain ⟨i⟩ := s
  have hpos := hσ.pos
  simp only [hσ.mem_objects, Machine.root, ScopeId.mk.injEq]
  omega

theorem size_eq (hσ : σ.Sound) (hσ' : σ'.Sound) (h : σ'.objects = σ.objects) :
    σ'.machine.scopes.size = σ.machine.scopes.size := by
  have hmem (i : Nat) : i < σ'.machine.scopes.size ↔ i < σ.machine.scopes.size := by
    rw [← hσ'.outer_iff (s := ⟨i⟩), h]
    exact hσ.outer_iff
  have := hmem σ.machine.scopes.size
  have := hmem σ'.machine.scopes.size
  omega

theorem laid (hσ : σ.Sound) : σ.machine.Laid σ.machine.scopes.size where
  pos := hσ.pos
  le_size := Nat.le_refl _
  outer s _ := hσ.parent s
  inner _ h hs := absurd hs (Nat.not_lt_of_le h)
  current := .inl hσ.current
  current_lt := hσ.current ▸ hσ.pos

theorem stocked (hσ : σ.Sound) (h : σ.Honest r) : (stock h.registry).Stocked σ.machine := by
  intro s scope hs
  refine ⟨(hσ.fills s scope hs).values, fun key callable hc => ?_⟩
  cases callable with
  | body body => exact (h.bodies s scope hs).functions key _ hc body rfl
  | print => trivial
  | method method closure => exact (hσ.fills s scope hs).functions key _ hc method closure rfl

theorem outer (hσ : σ.Sound) (hr : r.Keeps σ.objects) :
    (stock hr).Outer σ.machine.scopes.size where
  members hv hs := ((hσ.mem_objects _).1 (Value.Over.members hv hs)).2
  closure h := h

end Sound

/-- What is bound in a stocked machine is bound in a sound session. -/
theorem fills_of_stocked {objects : List ScopeId} {hr : r.Keeps objects}
    (h : (stock hr).Stocked m) : m.scopes.Fills (Value.Over objects) fun _ callable =>
      ∀ method closure, callable = .method method closure → closure = Machine.root := by
  refine Arena.Fills.mono h (fun _ hv => hv) ?_
  rintro _ _ hc method closure rfl
  exact hc

/-- Without a new object, a call leaves the scopes where they are and takes no binding away. -/
structure Extends (σ : Session) (m : Machine) : Prop where
  aligned : σ.machine.Aligned m
  grown : σ.machine.scopes.Grown m.scopes
  fills : m.scopes.Fills (Value.Over σ.objects) fun _ callable =>
    ∀ method closure, callable = .method method closure → closure = Machine.root

theorem Sound.bindVariable (hσ : σ.Sound) {s : ScopeId} {name : String} {v : Value}
    (hv : v.Over σ.objects) :
    σ.Extends { σ.machine with scopes := σ.machine.scopes.bindVariable s name v } where
  aligned := Machine.aligned_bindVariable ..
  grown := .bindVariable ..
  fills := hσ.fills.bindVariable s name hv

theorem Sound.bindFunction (hσ : σ.Sound) {s : ScopeId} {name : String} {arity : Nat}
    {callable : Callable} (hc : ∀ method closure, callable ≠ .method method closure) :
    σ.Extends
      { σ.machine with scopes := σ.machine.scopes.bindFunction s name arity callable } where
  aligned := Machine.aligned_bindFunction ..
  grown := .bindFunction ..
  fills := hσ.fills.bindFunction s fun method closure h => (hc method closure h).elim

theorem Sound.works (hσ : σ.Sound) (h : σ.Honest r)
    (hworks : Relation.ReflTransGen (stock h.registry).Works σ.machine m) : σ.Extends m where
  aligned := Stock.aligned_of_works hworks
  grown := Stock.grown_of_works hworks
  fills := fills_of_stocked (Stock.stocked_of_works hworks (hσ.stocked h))

/-- A call makes an object, in a scope behind all others, or it only extends the session. -/
theorem Sound.cases (hσ : σ.Sound) (h : Call r σ σ') :
    σ' = ⟨σ.machine.scopes.next :: σ.objects,
      { σ.machine with scopes := σ.machine.scopes.enter none }⟩ ∨
    σ'.objects = σ.objects ∧ σ.Extends σ'.machine := by
  cases h with
  | redirect sink =>
    have h : σ.Extends
        { σ.machine with scopes := σ.machine.scopes.bindFunction Machine.root "print" 1 .print } :=
      hσ.bindFunction nofun
    exact .inr ⟨rfl, { h with aligned := { h.aligned with } }⟩
  | defineVariable hv h =>
    obtain ⟨scopes, hscopes, rfl⟩ := Machine.defineVariable_eq_ok.1 h
    obtain ⟨-, rfl⟩ := Arena.defineVariable_eq_ok.1 hscopes
    exact .inr ⟨rfl, hσ.bindVariable hv⟩
  | defineFunction h =>
    obtain ⟨scopes, hscopes, rfl⟩ := Machine.defineFunction_eq_ok.1 h
    obtain ⟨-, rfl⟩ := Arena.defineFunction_eq_ok.1 hscopes
    exact .inr ⟨rfl, hσ.bindFunction nofun⟩
  | createObject h hs =>
    cases h
    cases hs
    exact .inl rfl
  | defineMemberVariable ho hv h =>
    obtain ⟨members, -, scopes, hscopes, rfl⟩ := Machine.defineMemberVariable_eq_ok.1 h
    obtain ⟨-, rfl⟩ := Arena.defineVariable_eq_ok.1 hscopes
    exact .inr ⟨rfl, hσ.bindVariable hv⟩
  | defineMemberFunction ho h =>
    obtain ⟨members, -, scopes, hscopes, rfl⟩ := Machine.defineMemberFunction_eq_ok.1 h
    obtain ⟨-, rfl⟩ := Arena.defineFunction_eq_ok.1 hscopes
    exact .inr ⟨rfl, hσ.bindFunction nofun⟩
  | evaluate hh h =>
    have hserves := (stock hh.registry).serves_within
    have heffect := (Stock.evaluates_evaluate rfl (hserves _) _ (hσ.stocked hh) _ _ h).1
    exact .inr ⟨rfl, hσ.works hh (.single (.effect heffect))⟩
  | execute hh h =>
    have hserves := (stock hh.registry).serves_within
    obtain ⟨_, heffect, -⟩ := Stock.executes_execute rfl (hserves _) _ (hσ.stocked hh) _ _ h
    exact .inr ⟨rfl, hσ.works hh (.single (.effect heffect))⟩
  | run hh h =>
    have hworks := Stock.works_run (hσ.stocked hh) hσ.current (fun _ _ => rfl) h
    exact .inr ⟨rfl, hσ.works hh hworks⟩

/-- What a host does leaves a session as it is described above. -/
theorem Sound.call (hσ : σ.Sound) (h : Call r σ σ') : σ'.Sound := by
  rcases hσ.cases h with rfl | ⟨hobjects, h⟩
  · refine
      { nodup := List.nodup_cons.2 ⟨fun hmem => ?_, hσ.nodup⟩
        mem_objects := fun s => ?_
        pos := Nat.lt_of_lt_of_eq (Nat.succ_pos _) (Arena.size_enter ..).symm
        parent := fun s => ?_
        current := hσ.current
        fills := ?_ }
    · exact Nat.lt_irrefl _ ((hσ.mem_objects _).1 hmem).2
    · obtain ⟨i⟩ := s
      have hpos := hσ.pos
      simp only [List.mem_cons, hσ.mem_objects, Arena.size_enter, Arena.next, ScopeId.mk.injEq]
      omega
    · rw [Arena.parent?_enter]
      split_ifs
      · rfl
      · exact hσ.parent s
    · refine (hσ.fills.mono (fun v hv => hv.mono ?_) fun _ _ h => h).enter _
      exact fun _ hmem => .tail _ hmem
  · exact
      { nodup := hobjects ▸ hσ.nodup
        mem_objects := fun s => by rw [hobjects, h.aligned.size, hσ.mem_objects]
        pos := h.aligned.size ▸ hσ.pos
        parent := fun s => (h.aligned.parent s).trans (hσ.parent s)
        current := h.aligned.current.trans hσ.current
        fills := hobjects ▸ h.fills }

theorem Sound.calls (hσ : σ.Sound) (h : Relation.ReflTransGen (Call r) σ σ') : σ'.Sound := by
  induction h with
  | refl => exact hσ
  | tail _ h ih => exact ih.call h

theorem Reached.sound (h : Reached r σ) : σ.Sound :=
  Sound.initial.calls h

/-- A host that binds no functions of its own is honest. -/
theorem honest_of_fills (hr : r.Keeps σ.objects)
    (h : σ.machine.scopes.Fills (fun _ => True) fun _ callable => ∀ body, callable ≠ .body body) :
    σ.Honest r where
  registry := hr
  bodies := h.mono (fun _ h => h) fun _ _ h body heq => (h body heq).elim

theorem fills_initial : initial.machine.scopes.Fills (fun _ => True) fun _ callable =>
    ∀ body, callable ≠ .body body :=
  Machine.fills_initial fun _ h => nomatch h

theorem honest_initial (hr : r.Keeps []) : initial.Honest r :=
  honest_of_fills hr fills_initial

/-! ## While a call runs -/

/-- What is going on in a session, with the machine that it began in and the one it has come to. -/
theorem During.covers (h : σ.During r m) (hσ : σ.Sound) :
    Relation.ReflTransGen (stock h.1.registry).Passes σ.machine m ∧
      (stock h.1.registry).Stocked m := by
  obtain ⟨hh, rounds, a, b, hparts, ha, hasked, rfl⟩ := h
  have hcovers : (stock hh.registry).Covers a := by
    refine ⟨ha ▸ hσ.stocked hh, ?_⟩
    obtain ⟨d, task, m⟩ := a
    subst ha
    cases task with
    | program p => exact ⟨hσ.current, fun _ _ => rfl⟩
    | expr | stmt => trivial
    | exprs | block | rounds | body => exact hasked.elim
  obtain ⟨hpasses, hb⟩ := hcovers.passes hparts
  rw [ha] at hpasses
  exact ⟨hpasses, hb.stocked⟩

theorem During.laid (h : σ.During r m) (hσ : σ.Sound) : m.Laid σ.machine.scopes.size :=
  Stock.laid_of_passes (hσ.outer h.1.registry) (h.covers hσ).1 hσ.laid

end Session

end TypedImp
