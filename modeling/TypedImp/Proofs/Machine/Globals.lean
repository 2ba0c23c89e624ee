import TypedImp.Proofs.Machine.Running

/-!
# Globals

Before a program is checked and run, variables can be defined for it in the checker and, under the
same names, in the machine. However it was prepared, the machine then starts with what the checker
started with (`opens_of_prepared`).
-/

namespace TypedImp

structure Global where
  target : Variable
  value : Value

/-- These variables were defined in a new checker, the last one first. -/
inductive Checker.Prepared : List Global → Checker → Prop
  | initial : Prepared [] .initial
  | define {gs : List Global} {c c' : Checker} {g : Global} (h : Prepared gs c)
      (ok : c.defineVariable g.target = .ok c') : Prepared (g :: gs) c'

/-- These variables were defined in a new machine, the last one first. What it prints was sent to
any sink in between. -/
inductive Machine.Prepared : List Global → Machine → Prop
  | initial : Prepared [] .initial
  | redirect {gs : List Global} {m : Machine} (sink : Sink) (h : Prepared gs m) :
      Prepared gs (m.redirect sink)
  | define {gs : List Global} {m m' : Machine} {g : Global} (h : Prepared gs m)
      (ok : m.defineVariable g.target.name g.value = .ok m') : Prepared (g :: gs) m'

/-- What a program knows that sees these variables and `print`. -/
def Environment.withGlobals : List Global → Environment
  | [] => .initial
  | g :: gs => (withGlobals gs).declare g.target

def Global.named? (gs : List Global) (name : String) : Option Global :=
  gs.find? (·.target.name = name)

theorem named?_cons (g : Global) (gs : List Global) (name : String) :
    Global.named? (g :: gs) name =
      if name = g.target.name then some g else Global.named? gs name := by
  rw [Global.named?, List.find?_cons]
  by_cases h : name = g.target.name
  · simp [h]
  · simp [h, Ne.symm h, Global.named?]

theorem named?_eq_some {gs : List Global} (hn : (gs.map (·.target.name)).Nodup) {name : String}
    {g : Global} : Global.named? gs name = some g ↔ g ∈ gs ∧ g.target.name = name := by
  induction gs with
  | nil => simp [Global.named?]
  | cons g' gs ih =>
    rw [List.map_cons, List.nodup_cons] at hn
    rw [named?_cons, List.mem_cons]
    split_ifs with h
    · subst h
      constructor
      · rintro ⟨⟩
        exact ⟨.inl rfl, rfl⟩
      · rintro ⟨rfl | hg, hname⟩
        · rfl
        · exact (hn.1 (hname ▸ List.mem_map_of_mem hg)).elim
    · rw [ih hn.2]
      constructor
      · exact fun hg => ⟨.inr hg.1, hg.2⟩
      · rintro ⟨rfl | hg, hname⟩
        · exact (h hname.symm).elim
        · exact ⟨hg, hname⟩

/-- The order in which variables were defined does not show. -/
theorem named?_perm {gs gs' : List Global} (h : gs.Perm gs')
    (hn : (gs.map (·.target.name)).Nodup) (name : String) :
    Global.named? gs name = Global.named? gs' name := by
  have hn' : (gs'.map (·.target.name)).Nodup := (h.map _).nodup_iff.1 hn
  refine Option.ext fun g => ?_
  rw [named?_eq_some hn, named?_eq_some hn', h.mem_iff]

/-! ## The checker -/

namespace Environment

theorem frames_withGlobals : ∀ gs : List Global, ∃ frame, (withGlobals gs).frames = [frame] ∧
    ∀ name, frame.get? name = (Global.named? gs name).map (·.target)
  | [] => ⟨[], rfl, fun _ => rfl⟩
  | g :: gs => by
    obtain ⟨frame, hframes, hget⟩ := frames_withGlobals gs
    refine ⟨frame.insert g.target.name g.target, ?_, fun name => ?_⟩
    · rw [withGlobals, declare, hframes]
      rfl
    · rw [Table.get?_insert, named?_cons, hget]
      split_ifs <;> rfl

theorem functions_withGlobals : ∀ gs : List Global,
    (withGlobals gs).functions = Environment.initial.functions
  | [] => rfl
  | _ :: gs => functions_withGlobals gs

end Environment

namespace Checker.Prepared

variable {gs : List Global} {c : Checker}

theorem current (h : Prepared gs c) : c.current = Checker.root := by
  induction h with
  | initial => rfl
  | define h ok ih =>
    simp only [Checker.defineVariable, bind_eq_ok, pure_eq_ok] at ok
    obtain ⟨scopes, -, rfl⟩ := ok
    exact ih

theorem sees (h : Prepared gs c) :
    c.Sees (.withGlobals gs) ∧ (gs.map (·.target.name)).Nodup := by
  induction h with
  | initial => exact ⟨Typing.sees_initial, List.nodup_nil⟩
  | @define gs c c' g h ok ih =>
    obtain ⟨hsees, hn⟩ := ih
    simp only [Checker.defineVariable, bind_eq_ok, pure_eq_ok, Arena.defineVariable_eq_ok,
      ← h.current] at ok
    obtain ⟨_, ⟨hfresh, rfl⟩, rfl⟩ := ok
    refine ⟨hsees.declare g.target, ?_⟩
    rw [hsees.fresh_iff] at hfresh
    obtain ⟨frame, hframes, hget⟩ := Environment.frames_withGlobals gs
    rw [List.map_cons, List.nodup_cons]
    refine ⟨fun hmem => ?_, hn⟩
    obtain ⟨g', hg', hname⟩ := List.mem_map.1 hmem
    have hnone : frame.get? g.target.name = none := hfresh frame (by rw [hframes]; rfl)
    rw [hget, (named?_eq_some hn).2 ⟨hg', hname⟩] at hnone
    cases hnone

end Checker.Prepared

/-! ## The machine -/

/-- All that can be called before a program is there. -/
def bareFunctions : Table (String × Nat) Callable :=
  [(("print", 1), .print)]

/-- However it was prepared, a machine has one scope, with `print` and its variables. -/
theorem Machine.Prepared.scopes {gs : List Global} {m : Machine} (h : Machine.Prepared gs m) :
    m.current = Machine.root ∧ ∃ vars, m.scopes = ⟨#[⟨vars, bareFunctions, none⟩]⟩ ∧
      ∀ name, vars.get? name = (Global.named? gs name).map (·.value) := by
  induction h with
  | initial => exact ⟨rfl, [], rfl, fun _ => rfl⟩
  | redirect sink h ih =>
    obtain ⟨hcurrent, vars, hscopes, hget⟩ := ih
    refine ⟨hcurrent, vars, ?_, hget⟩
    rw [Machine.redirect, hscopes]
    rfl
  | @define gs m m' g h ok ih =>
    obtain ⟨hcurrent, vars, hscopes, hget⟩ := ih
    simp only [Machine.defineVariable, bind_eq_ok, pure_eq_ok, Arena.defineVariable_eq_ok] at ok
    obtain ⟨_, ⟨-, rfl⟩, rfl⟩ := ok
    refine ⟨hcurrent, vars.insert g.target.name g.value, ?_, fun name => ?_⟩
    · rw [hscopes]
      rfl
    · rw [Table.get?_insert, named?_cons, hget]
      split_ifs <;> rfl

/-- A prepared machine starts with what a checker that was prepared alike started with. -/
theorem opens_of_prepared {r : Registry} (D : Discipline r) {gs gs' : List Global} {c : Checker}
    {m : Machine} (hc : Checker.Prepared gs c) (hm : Machine.Prepared gs' m) (hperm : gs.Perm gs')
    (hg : ∀ g ∈ gs, D.holds g.target.type g.value) :
    ∃ top, Level [] top (.withGlobals gs) ∧ D.Opens top m := by
  obtain ⟨hsees, hn⟩ := hc.sees
  obtain ⟨frame, hframes, hget⟩ := Environment.frames_withGlobals gs
  obtain ⟨hcurrent, vars, hscopes, hvars⟩ := hm.scopes
  refine ⟨⟨frame, bareFunctions, none⟩, ⟨rfl, hframes, ?_, hsees.keyed, ?_⟩, ⟨?_, hcurrent⟩, rfl⟩
  · intro name v hv
    rw [hget, Option.map_eq_some_iff] at hv
    obtain ⟨g, hg, rfl⟩ := hv
    exact ((named?_eq_some hn).1 hg).2
  · intro key
    rw [Environment.functions_withGlobals, Environment.initial, bareFunctions, Table.get?_cons,
      Table.get?_cons]
    split_ifs
    · exact .some .print
    · exact .none
  · have hfits : Scope.Fits D.holds ⟨frame, bareFunctions, none⟩ ⟨vars, bareFunctions, none⟩ := by
      refine ⟨rfl, rfl, fun name => ?_⟩
      rw [hget, hvars, ← named?_perm hperm hn]
      cases hname : Global.named? gs name with
      | none => exact .none
      | some g => exact .some (hg g ((named?_eq_some hn).1 hname).1)
    rw [hscopes]
    rintro ⟨_ | i⟩
    · exact .some hfits
    · exact .none

end TypedImp
