import TypedImp.Proofs.Scope.History

/-!
# Arenas as lexical environments

The frames from a scope up to its root are the environment of the scope (`Arena.env`). Whatever is
done to an arena, as long as scopes are entered inside live ones only, it stands for nested
environments (`arena_lexical`): entering a scope puts an empty frame in front of the environment of
its parent, leaving one takes environments away and changes none of the others, a definition adds
one binding to one frame, and a lookup gives the first binding along an environment.
-/

namespace TypedImp

variable {V F : Type}

/-- What a scope binds, apart from where it lies. -/
structure Frame (V F : Type) where
  vars : Table String V
  funs : Table (String × Nat) F

namespace Frame

def empty : Frame V F :=
  ⟨[], []⟩

def bindVariable (name : String) (value : V) (frame : Frame V F) : Frame V F :=
  { frame with vars := frame.vars.insert name value }

def bindFunction (name : String) (arity : Nat) (function : F) (frame : Frame V F) : Frame V F :=
  { frame with funs := frame.funs.insert (name, arity) function }

def lookupVariable (env : List (Frame V F)) (name : String) : Except Error V :=
  match env.findSome? (·.vars.get? name) with
  | some value => .ok value
  | none => .error (.unknownVariable name)

end Frame

def Scope.frame (scope : Scope V F) : Frame V F :=
  ⟨scope.vars, scope.funs⟩

namespace Arena

variable {a : Arena V F} {s t : ScopeId}

def frame? (a : Arena V F) (s : ScopeId) : Option (Frame V F) :=
  (a.get? s).map Scope.frame

/-- The frames from a scope up to its root, innermost first. -/
def env (a : Arena V F) (s : ScopeId) : List (Frame V F) :=
  (a.chain s).scopes.map fun q => q.2.frame

/-- The environment of `t` when the frame of `s`, if it is part of it, is changed. -/
def envWith (a : Arena V F) (s : ScopeId) (change : Frame V F → Frame V F) (t : ScopeId) :
    List (Frame V F) :=
  (a.chain t).scopes.map fun q => if q.1 = s then change q.2.frame else q.2.frame

/-- What a definition in a scope comes to. It adds a binding to the frame of the scope, unless that
has one of the same key or the scope is not live, and changes no other frame. -/
inductive Defines (a : Arena V F) (s : ScopeId) (taken : Frame V F → Prop)
    (bind : Frame V F → Frame V F) (duplicate : Error) : Except Error (Arena V F) → Prop
  | defined {frame : Frame V F} {b : Arena V F} (live : a.frame? s = some frame)
      (free : ¬ taken frame) (here : b.frame? s = some (bind frame))
      (elsewhere : ∀ t, t ≠ s → b.frame? t = a.frame? t)
      (parents : ∀ t, b.parent? t = a.parent? t) (envs : ∀ t, b.env t = a.envWith s bind t) :
      Defines a s taken bind duplicate (.ok b)
  | duplicate {frame : Frame V F} (live : a.frame? s = some frame) (again : taken frame) :
      Defines a s taken bind duplicate (.error duplicate)
  | stale (gone : a.frame? s = none) : Defines a s taken bind duplicate (.error (notLive s))

/-- An arena stands for nested environments. -/
structure Lexical (a : Arena V F) : Prop where
  /-- A parent lies before its children, and is live as long as they are. -/
  parent (s p : ScopeId) (h : a.parent? s = some p) : p.index < s.index ∧ p.index < a.size
  env_live (s : ScopeId) (scope : Scope V F) (h : a.get? s = some scope) :
    a.env s = scope.frame :: scope.parent.elim [] a.env
  env_stale (s : ScopeId) (h : a.size ≤ s.index) : a.env s = []
  /-- A new scope has the number of live scopes as its id. -/
  enter (parent : Option ScopeId) (h : ∀ p ∈ parent, p.index < a.size) :
    a.next = ⟨a.size⟩ ∧ (a.enter parent).size = a.size + 1 ∧
      (a.enter parent).env a.next = .empty :: parent.elim [] a.env ∧
      ∀ t, t ≠ a.next → (a.enter parent).env t = a.env t
  exit (s : ScopeId) :
    (∀ t : ScopeId, t.index < (a.exit s).size ↔ t.index < a.size ∧ t.index < s.index) ∧
      ∀ t : ScopeId, t.index < s.index → (a.exit s).env t = a.env t
  defineVariable (s : ScopeId) (name : String) (value : V) :
    a.Defines s (fun frame => (frame.vars.get? name).isSome) (.bindVariable name value)
      (.duplicateVariable name) (a.defineVariable s name value)
  defineFunction (s : ScopeId) (name : String) (arity : Nat) (function : F) :
    a.Defines s (fun frame => (frame.funs.get? (name, arity)).isSome)
      (.bindFunction name arity function) (.duplicateFunction name arity)
      (a.defineFunction s name arity function)
  failed (act : Act V F) (e : Error) (h : act.perform a = .error e) : a.after act = a
  lookupVariable (s : ScopeId) (name : String) :
    a.lookupVariable s name = Frame.lookupVariable (a.env s) name

/-! ## Environments -/

theorem Path.env_eq {l : List (ScopeId × Scope V F)} (h : a.Path s l) :
    a.env s = l.map fun q => q.2.frame := by
  rw [env, h.chain]

theorem env_stale (h : a.size ≤ s.index) : a.env s = [] := by
  simp only [env, chain, climb, get?_eq_none h, List.map_nil]

theorem Path.env_congr {b : Arena V F} {l : List (ScopeId × Scope V F)} (h : a.Path s l)
    (hb : b.Path s l) : b.env s = a.env s :=
  hb.env_eq.trans h.env_eq.symm

theorem frame?_modify (a : Arena V F) (s t : ScopeId) {f : Scope V F → Scope V F}
    {change : Frame V F → Frame V F} (hf : ∀ scope, (f scope).frame = change scope.frame) :
    (a.modify s f).frame? t = if t = s then (a.frame? t).map change else a.frame? t := by
  unfold frame?
  rw [get?_modify]
  split_ifs
  · simp only [Option.map_map]
    exact congrArg (Option.map · _) (funext hf)
  · rfl

/-- A change to one scope changes one frame in environments. -/
theorem env_modify (a : Arena V F) (s t : ScopeId) {f : Scope V F → Scope V F}
    {change : Frame V F → Frame V F} (hp : ∀ scope, (f scope).parent = scope.parent)
    (hf : ∀ scope, (f scope).frame = change scope.frame) :
    (a.modify s f).env t = a.envWith s change t := by
  rw [env, chain_modify a s hp, envWith, List.map_map]
  refine List.map_congr_left fun q _ => ?_
  simp only [Function.comp_apply]
  split_ifs
  · exact hf q.2
  · rfl

/-! ## Definitions -/

theorem Defines.of_modify {taken : Frame V F → Prop} {bind : Frame V F → Frame V F}
    {duplicate : Error} {f : Scope V F → Scope V F} {scope : Scope V F}
    (live : a.get? s = some scope) (free : ¬ taken scope.frame)
    (hp : ∀ scope, (f scope).parent = scope.parent)
    (hf : ∀ scope, (f scope).frame = bind scope.frame) :
    a.Defines s taken bind duplicate (.ok (a.modify s f)) := by
  have hframe : a.frame? s = some scope.frame := by rw [frame?, live, Option.map_some]
  refine .defined hframe free ?_ (fun t ht => ?_) (fun t => parent?_modify a s t hp)
    fun t => env_modify a s t hp hf
  · rw [frame?_modify a s s hf, if_pos rfl, hframe, Option.map_some]
  · rw [frame?_modify a s t hf, if_neg ht]

theorem defines_defineVariable (a : Arena V F) (s : ScopeId) (name : String) (value : V) :
    a.Defines s (fun frame => (frame.vars.get? name).isSome) (.bindVariable name value)
      (.duplicateVariable name) (a.defineVariable s name value) := by
  unfold defineVariable
  split
  · rename_i gone
    exact .stale (by rw [frame?, gone, Option.map_none])
  · rename_i scope live
    split_ifs with h
    · exact .duplicate (by rw [frame?, live, Option.map_some]) h
    · exact .of_modify live h (fun _ => rfl) fun _ => rfl

theorem defines_defineFunction (a : Arena V F) (s : ScopeId) (name : String) (arity : Nat)
    (function : F) : a.Defines s (fun frame => (frame.funs.get? (name, arity)).isSome)
      (.bindFunction name arity function) (.duplicateFunction name arity)
      (a.defineFunction s name arity function) := by
  unfold defineFunction
  split
  · rename_i gone
    exact .stale (by rw [frame?, gone, Option.map_none])
  · rename_i scope live
    split_ifs with h
    · exact .duplicate (by rw [frame?, live, Option.map_some]) h
    · exact .of_modify live h (fun _ => rfl) fun _ => rfl

/-! ## Lookups -/

theorem lookupVariable_env_of_path {l : List (ScopeId × Scope V F)} (h : a.Path s l)
    (name : String) : a.lookupVariable s name = Frame.lookupVariable (a.env s) name := by
  have hfind : (a.findVariable? s name).map Prod.snd = (a.env s).findSome? (·.vars.get? name) := by
    rw [h.findVariable?, h.env_eq, List.findSome?_map, List.map_findSome?]
    congr 1
    funext q
    exact (Option.map_map ..).trans (Option.map_id' ..)
  unfold lookupVariable Frame.lookupVariable
  rw [← hfind, h.chain]
  cases a.findVariable? s name <;> rfl

theorem lookupVariable_of_stale (h : a.size ≤ s.index) (name : String) :
    a.lookupVariable s name = .error (.unknownVariable name) := by
  simp only [lookupVariable, findVariable?, chain, climb, get?_eq_none h, List.findSome?_nil,
    notFound]

namespace Ordered

variable (h : a.Ordered)
include h

theorem env_live {scope : Scope V F} (hs : a.get? s = some scope) :
    a.env s = scope.frame :: scope.parent.elim [] a.env := by
  obtain ⟨l, hl⟩ := h.exists_path (lt_size_of_get? hs)
  rw [hl.env_eq]
  cases hl with
  | root live top =>
    cases live.symm.trans hs
    rw [top]
    rfl
  | child live parent _ rest =>
    cases live.symm.trans hs
    rw [parent, Option.elim_some, rest.env_eq]
    rfl

theorem env_enter_next {parent : Option ScopeId} (hp : ∀ p ∈ parent, p.index < a.size) :
    (a.enter parent).env a.next = .empty :: parent.elim [] a.env := by
  have live : (a.enter parent).get? a.next = some (.empty parent) := by
    rw [get?_enter, if_pos rfl]
  rw [(h.enter hp).env_live live]
  cases parent with
  | none => rfl
  | some p =>
    obtain ⟨l, hl⟩ := h.exists_path (hp p rfl)
    exact congrArg (Frame.empty :: ·) (hl.env_congr (hl.enter (some p)))

theorem env_enter_of_ne (parent : Option ScopeId) (ht : t ≠ a.next) :
    (a.enter parent).env t = a.env t := by
  obtain ⟨i⟩ := t
  by_cases hlive : i < a.size
  · obtain ⟨l, hl⟩ := h.exists_path (s := ⟨i⟩) hlive
    exact hl.env_congr (hl.enter parent)
  · have hne : i ≠ a.size := fun hi => ht (congrArg ScopeId.mk hi)
    rw [env_stale (s := ⟨i⟩) (Nat.le_of_not_lt hlive), env_stale]
    rw [size_enter]
    show a.size + 1 ≤ i
    omega

theorem env_exit (ht : t.index < s.index) : (a.exit s).env t = a.env t := by
  by_cases hlive : t.index < a.size
  · obtain ⟨l, hl⟩ := h.exists_path hlive
    refine hl.env_congr (hl.congr fun u hu => ?_)
    rw [get?_exit, if_pos (Nat.lt_of_le_of_lt hu ht)]
  · have hle := Nat.le_of_not_lt hlive
    rw [env_stale hle, env_stale]
    rw [size_exit]
    omega

theorem lookupVariable_env (s : ScopeId) (name : String) :
    a.lookupVariable s name = Frame.lookupVariable (a.env s) name := by
  by_cases hlive : s.index < a.size
  · obtain ⟨l, hl⟩ := h.exists_path hlive
    exact lookupVariable_env_of_path hl name
  · have hle := Nat.le_of_not_lt hlive
    rw [lookupVariable_of_stale hle, env_stale hle]
    rfl

theorem lexical : a.Lexical where
  parent s p hp := ⟨h s p hp, h.live_parent hp⟩
  env_live _ _ hs := h.env_live hs
  env_stale _ hs := Arena.env_stale hs
  enter parent hp := ⟨rfl, size_enter .., h.env_enter_next hp, fun _ => h.env_enter_of_ne parent⟩
  exit s := by
    refine ⟨fun t => ?_, fun t => h.env_exit⟩
    rw [size_exit]
    omega
  defineVariable := defines_defineVariable a
  defineFunction := defines_defineFunction a
  failed act e he := by rw [Arena.after, he]
  lookupVariable := h.lookupVariable_env

end Ordered

/-- Whatever is done to an arena, with ids that may be stale, it stands for nested environments as
long as scopes are entered inside live ones only. -/
theorem arena_lexical (acts : List (Act V F)) (h : (empty : Arena V F).Nested acts) :
    ((empty : Arena V F).afterAll acts).Lexical :=
  (Ordered.empty.afterAll acts h).lexical

theorem arena_lexical_strayed :
    (empty : Arena Nat Nat).Nested strayed ∧ ((empty : Arena Nat Nat).afterAll strayed).Lexical :=
  have nested : (empty : Arena Nat Nat).Nested strayed := by decide
  ⟨nested, arena_lexical strayed nested⟩

end Arena

end TypedImp
