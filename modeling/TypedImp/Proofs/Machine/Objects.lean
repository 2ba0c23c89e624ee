import TypedImp.Proofs.Machine.Session

/-!
# Objects are separate

The scope of an object's members belongs to that object alone, for as long as the machine exists:
no other object gets it, no block or call is run in it, and what is bound in it stays bound. Main
statement (`objects_separate`): an assignment to a field of an object changes that field of that
object and nothing else.
-/

namespace TypedImp

open Exec

/-! ## Outer scopes -/

namespace Machine.Laid

variable {k : Nat} {m : Machine} {s t : ScopeId} {name : String} {v : Value}

/-- The chain of an outer scope is that scope alone. -/
theorem chain_outer (h : m.Laid k) (hs : s.index < k) :
    ∃ scope, m.scopes.get? s = some scope ∧ m.scopes.chain s = ⟨[(s, scope)], .root⟩ := by
  obtain ⟨scope, hscope⟩ := Arena.exists_get? (Nat.lt_of_lt_of_le hs h.le_size)
  have htop := h.outer s hs
  rw [Arena.parent?, hscope] at htop
  exact ⟨scope, hscope, (Arena.Path.root hscope htop).chain⟩

/-- A variable that is bound in an outer scope is found from there. -/
theorem lookup_bindVariable (h : m.Laid k) (hs : s.index < k) :
    (m.scopes.bindVariable s name v).lookupVariable s name = .ok v := by
  obtain ⟨scope, hscope, -⟩ := h.chain_outer hs
  have hbound := h.of_aligned (aligned_bindVariable m s name v)
  obtain ⟨scope', hscope', hchain⟩ := hbound.chain_outer hs
  rw [Arena.lookupVariable_eq_ok]
  refine ⟨s, ?_⟩
  unfold Arena.findVariable?
  rw [hchain]
  have : scope' = scope.bindVariable name v := by
    rw [Arena.bindVariable, Arena.get?_modify, if_pos rfl, hscope] at hscope'
    exact (Option.some.inj hscope').symm
  simp [this, Scope.bindVariable]

/-- Binding a variable in one outer scope changes what is found from none of the others. -/
theorem lookup_bindVariable_of_ne (h : m.Laid k) (ht : t.index < k) (hne : t ≠ s)
    (other : String) : (m.scopes.bindVariable s name v).lookupVariable t other =
      m.scopes.lookupVariable t other := by
  obtain ⟨scope, hscope, hchain⟩ := h.chain_outer ht
  have hbound := h.of_aligned (aligned_bindVariable m s name v)
  obtain ⟨scope', hscope', hchain'⟩ := hbound.chain_outer ht
  obtain rfl : scope' = scope := by
    rw [Arena.bindVariable, Arena.get?_modify, if_neg hne, hscope] at hscope'
    exact (Option.some.inj hscope').symm
  exact Arena.lookupVariable_congr (hchain'.trans hchain.symm) other

end Machine.Laid

/-! ## Assignments to fields -/

/-- What an assignment to a field has done if it succeeds. -/
theorem run_assignment {r : Registry} {budget : Budget} {e value : Typed.Expr} {target : Variable}
    {type : TypeId} {flow : Flow} {m m' : Machine}
    (h : (execute r budget (.assignment (.field e target type) value)).run m =
      some (.ok flow, m')) :
    ∃ object m₁ v m₂ s t old, (evaluate r budget e).run m = some (.ok object, m₁) ∧
      (evaluate r budget value).run m₁ = some (.ok v, m₂) ∧ object.members = some s ∧
      m₂.scopes.findVariable? s target.name = some (t, old) ∧
      m' = { m₂ with scopes := m₂.scopes.bindVariable t target.name v } := by
  unfold execute Context.execute at h
  obtain ⟨_, m₃, hassign, hreturn⟩ := run_bind_eq_ok.1 h
  cases hreturn
  unfold Context.assign at hassign
  obtain ⟨object, m₁, ho, hassign⟩ := run_bind_eq_ok.1 hassign
  obtain ⟨v, m₂, hv, hassign⟩ := run_bind_eq_ok.1 hassign
  rw [run_lift_bind] at hassign
  split at hassign
  · rename_i s hs
    change (liftM (m₂.scopes.setVariable s target.name v) >>= fun p =>
      set { m₂ with scopes := p.2 } : Exec PUnit).run m₂ = _ at hassign
    rw [run_lift_bind] at hassign
    split at hassign
    · rename_i p hset
      obtain ⟨old, scopes⟩ := p
      obtain ⟨t, hfind, rfl⟩ := Arena.setVariable_eq_ok.1 hset
      cases hassign
      exact ⟨object, m₁, v, m₂, s, t, old, ho, hv, Machine.memberScope_eq_ok.1 hs, hfind, rfl⟩
    · cases hassign
  · cases hassign

namespace Session

variable {r : Registry} {σ σ' : Session} {m : Machine}

theorem Sound.grown (hσ : σ.Sound) (h : Call r σ σ') :
    σ.machine.scopes.Grown σ'.machine.scopes ∧ ∀ s ∈ σ.objects, s ∈ σ'.objects := by
  rcases hσ.cases h with rfl | ⟨hobjects, h⟩
  · exact ⟨.enter .., fun _ hs => .tail _ hs⟩
  · exact ⟨h.grown, fun _ hs => hobjects ▸ hs⟩

theorem Sound.grown_calls (hσ : σ.Sound) (h : Relation.ReflTransGen (Call r) σ σ') :
    σ.machine.scopes.Grown σ'.machine.scopes ∧ ∀ s ∈ σ.objects, s ∈ σ'.objects := by
  induction h with
  | refl => exact ⟨.refl _, fun _ hs => hs⟩
  | tail hcalls h ih =>
    obtain ⟨hgrown, hobjects⟩ := (hσ.calls hcalls).grown h
    exact ⟨ih.1.trans hgrown, fun s hs => hobjects s (ih.2 s hs)⟩

/-- The machine of a session, or one at some moment of what the host has it run next. -/
def Shows (r : Registry) (σ : Session) (m : Machine) : Prop :=
  m = σ.machine ∨ σ.During r m

theorem Shows.grown (h : σ.Shows r m) (hσ : σ.Sound) : σ.machine.scopes.Grown m.scopes := by
  rcases h with rfl | h
  · exact .refl _
  · exact Stock.grown_of_passes (h.covers hσ).1

theorem Shows.laid (h : σ.Shows r m) (hσ : σ.Sound) : m.Laid σ.machine.scopes.size := by
  rcases h with rfl | h
  · exact hσ.laid
  · exact h.laid hσ

end Session

/-- An object keeps the scope of its members and the names in it, no other object and no run gets
that scope, and an assignment to one of its fields changes nothing else. -/
theorem objects_separate {r : Registry} {σ σ' : Session} (hσ : Session.Reached r σ)
    (hcalls : Relation.ReflTransGen (Session.Call r) σ σ') :
    (∀ m, σ'.Shows r m → ∀ s ∈ σ.objects, (∃ scope, m.scopes.get? s = some scope) ∧
      (∀ name, σ.machine.scopes.Binds s name → m.scopes.Binds s name) ∧
      ∀ key, σ.machine.scopes.BindsFunction s key → m.scopes.BindsFunction s key) ∧
    (σ'.objects.Nodup ∧ ∀ type datum, ∃ s ∉ σ'.objects,
      (σ'.machine.createObject type datum).1.members = some s) ∧
    (∀ m, σ'.Shows r m → ∀ s ∈ σ'.objects,
      m.scopes.parent? s = none ∧ s ≠ m.current ∧ s ≠ m.scopes.next) ∧
    ∀ m, σ'.During r m → ∀ budget e target type value flow m',
      (execute r budget (.assignment (.field e target type) value)).run m =
        some (.ok flow, m') →
      ∃ object m₁ v m₂, (evaluate r budget e).run m = some (.ok object, m₁) ∧
        (evaluate r budget value).run m₁ = some (.ok v, m₂) ∧
        ∃ s ∈ σ'.objects, object.members = some s ∧ m₂.scopes.Binds s target.name ∧
          m' = { m₂ with scopes := m₂.scopes.bindVariable s target.name v } ∧
          (∀ copy, copy.members = some s → m'.readField r copy target.name = .ok v) ∧
          ∀ other, other.Over σ'.objects → other.members ≠ some s → ∀ name,
            m'.readField r other name = m₂.readField r other name := by
  have hsound := hσ.sound
  have hsound' := hsound.calls hcalls
  obtain ⟨hgrown, hobjects⟩ := hsound.grown_calls hcalls
  refine ⟨fun m hm s hs => ?_, ⟨hsound'.nodup, fun type datum => ?_⟩, fun m hm s hs => ?_, ?_⟩
  · have hgrown := hgrown.trans (hm.grown hsound')
    exact ⟨Arena.exists_get? (Nat.lt_of_lt_of_le ((hsound.mem_objects s).1 hs).2 hgrown.size),
      hgrown.names s, hgrown.functions s⟩
  · refine ⟨_, fun hmem => ?_, rfl⟩
    exact Nat.lt_irrefl _ ((hsound'.mem_objects _).1 hmem).2
  · obtain ⟨hpos, hlt⟩ := (hsound'.mem_objects s).1 hs
    have hlaid := hm.laid hsound'
    refine ⟨hlaid.outer s hlt, ?_, ?_⟩
    · rintro rfl
      rcases hlaid.current with hroot | hle
      · rw [hroot] at hpos
        exact Nat.lt_irrefl _ hpos
      · omega
    · rintro rfl
      exact Nat.lt_irrefl _ (Nat.lt_of_lt_of_le hlt hlaid.le_size)
  · intro m hm budget e target type value flow m' hrun
    obtain ⟨object, m₁, v, m₂, s, t, old, ho, hv, hs, hfind, rfl⟩ := run_assignment hrun
    have hserves := (Session.stock hm.1.registry).serves_within budget
    have hstocked := (hm.covers hsound').2
    obtain ⟨heffect, hobject⟩ := Stock.evaluates_evaluate rfl hserves e hstocked _ _ ho
    obtain ⟨heffect', -⟩ :=
      Stock.evaluates_evaluate rfl hserves value (heffect.stocked hstocked) _ _ hv
    have hlaid := ((hm.laid hsound').of_aligned heffect.kept.toAligned).of_aligned
      heffect'.kept.toAligned
    have hmem := Value.Over.members (hobject object rfl) hs
    have hlt := ((hsound'.mem_objects s).1 hmem).2
    obtain rfl := (hlaid.eq_of_findVariable? hlt hfind).symm
    obtain ⟨scope, hscope, hbound⟩ := Arena.get?_of_findVariable? hfind
    refine ⟨object, m₁, v, m₂, ho, hv, _, hmem, hs, ⟨scope, hscope, by rw [hbound]; rfl⟩, rfl,
      fun copy hcopy => ?_, fun other hother hne name => ?_⟩
    · unfold Machine.readField
      rw [hcopy, Option.map_some, hlaid.lookup_bindVariable hlt]
    · unfold Machine.readField
      rcases hmembers : other.members with _ | u
      · rfl
      · have hu := ((hsound'.mem_objects u).1 (hother.members hmembers)).2
        have hne : u ≠ s := by
          rintro rfl
          exact hne hmembers
        rw [Option.map_some, Option.map_some, hlaid.lookup_bindVariable_of_ne hu hne]

/-- A session with one object, which has a field `x` and is the value of the variable `o`. -/
def Session.point : Session where
  objects := [⟨1⟩]
  machine := { Machine.initial with
    scopes := ((Machine.initial.scopes.enter none).bindVariable ⟨1⟩ "x" (.integer 1)).bindVariable
      Machine.root "o" (.object .any .nil ⟨1⟩) }

/-- Assigns to the field `x` of the variable `o`. -/
def Typed.Stmt.setX (n : Int) : Typed.Stmt :=
  .assignment (.field (.var (.plain "o" .any) .any) (.plain "x" .integer) .integer)
    (.literal (.integer n) .integer)

theorem objects_separate_point : Session.Reached .builtin .point ∧ ∃ m',
    (execute .builtin ⟨0, 0⟩ (.setX 2)).run Session.point.machine = some (.ok .normal, m') ∧
    ∀ copy, copy.members = some ⟨1⟩ → m'.readField .builtin copy "x" = .ok (.integer 2) := by
  have ho : (Value.object .any .nil ⟨1⟩).Over [⟨1⟩] :=
    .mk (by rintro _ ⟨⟩; exact .head _) fun _ h => nomatch h
  have hone : (Value.integer 1).Over [⟨1⟩] := Value.over_of _ fun _ h => nomatch h
  have hmake : Machine.initial.createObject .any .nil = (.object .any .nil ⟨1⟩, _) := rfl
  have hfield {m m' : Machine}
      (h : m.defineMemberVariable (.object .any .nil ⟨1⟩) "x" (.integer 1) = .ok m') :
      Session.Call .builtin ⟨[⟨1⟩], m⟩ ⟨[⟨1⟩], m'⟩ := .defineMemberVariable ho hone h
  have hvariable {m m' : Machine} (h : m.defineVariable "o" (.object .any .nil ⟨1⟩) = .ok m') :
      Session.Call .builtin ⟨[⟨1⟩], m⟩ ⟨[⟨1⟩], m'⟩ := .defineVariable ho h
  have hσ : Session.Reached .builtin .point :=
    .tail (.tail (.tail .refl (.createObject hmake rfl)) (hfield rfl)) (hvariable rfl)
  have hhonest : Session.point.Honest .builtin := Session.honest_of_fills Registry.keeps_builtin
    (((Session.fills_initial.enter none).bindVariable _ _ trivial).bindVariable _ _ trivial)
  have hduring : Session.point.During .builtin Session.point.machine :=
    ⟨hhonest, 0, ⟨0, .stmt (.setX 2), _⟩, _, .refl, rfl, trivial, rfl⟩
  obtain ⟨m', hrun⟩ : ∃ m', (execute .builtin ⟨0, 0⟩ (.setX 2)).run Session.point.machine =
      some (.ok .normal, m') := ⟨_, by rfl⟩
  refine ⟨hσ, m', hrun, fun copy hcopy => ?_⟩
  obtain ⟨object, m₁, v, m₂, -, hv, s, hs, -, -, -, hread, -⟩ :=
    (objects_separate hσ .refl).2.2.2 _ hduring _ _ _ _ _ _ _ hrun
  cases hv
  rw [List.mem_singleton.1 hs] at hread
  exact hread copy hcopy

end TypedImp
