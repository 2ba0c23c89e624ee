import TypedImp.Proofs.Machine.Step

/-!
# Steps that fail in known ways only

A step is safe if, when it ends, it succeeds as wanted or fails with one of the errors that are
allowed for (`Exec.Safe`). Safety goes from the parts of a construct to the construct; a loop is
safe if its rounds keep an invariant (`safe_forEach`, `safe_repeatWhile`).
-/

namespace TypedImp

variable {α β : Type} {fails : Error → Prop}

/-- Succeeds with a result as wanted, or fails with an error that is allowed for. -/
def Meets (fails : Error → Prop) (post : α → Prop) : Except Error α → Prop
  | .ok a => post a
  | .error e => fails e

theorem Meets.mono {post post' : α → Prop} {o : Except Error α} (h : Meets fails post o)
    (hpost : ∀ a, post a → post' a) : Meets fails post' o := by
  cases o with
  | ok a => exact hpost a h
  | error e => exact h

theorem Meets.bind {post : α → Prop} {post' : β → Prop} {o : Except Error α}
    {next : α → Except Error β} (h : Meets fails post o)
    (hnext : ∀ a, post a → Meets fails post' (next a)) : Meets fails post' (o >>= next) := by
  cases o with
  | ok a => exact hnext a h
  | error e => exact h

namespace Exec

variable {m : Machine}

/-- If the step ends, its outcome is as wanted. -/
def Safe (fails : Error → Prop) (step : Exec α) (m : Machine) (post : α → Machine → Prop) : Prop :=
  ∀ outcome m', step.run m = some (outcome, m') → Meets fails (post · m') outcome

theorem safe_pure {a : α} {post : α → Machine → Prop} (h : post a m) :
    Safe fails (pure a) m post := by
  rintro outcome m' ⟨⟩
  exact h

theorem safe_throw {e : Error} {post : α → Machine → Prop} (h : fails e) :
    Safe fails (throw e) m post := by
  rintro outcome m' ⟨⟩
  exact h

theorem safe_set {m₁ : Machine} {post : PUnit → Machine → Prop} (h : post ⟨⟩ m₁) :
    Safe fails (set m₁) m post := by
  rintro outcome m' ⟨⟩
  exact h

theorem safe_lift {o : Except Error α} {post : α → Machine → Prop} (h : Meets fails (post · m) o) :
    Safe fails (liftM o) m post := by
  cases o <;> rintro outcome m' ⟨⟩ <;> exact h

theorem safe_exhausted {post : α → Machine → Prop} : Safe fails exhausted m post := by
  rintro outcome m' ⟨⟩

theorem safe_bind {step : Exec α} {next : α → Exec β} {mid : α → Machine → Prop}
    {post : β → Machine → Prop} (h : Safe fails step m mid)
    (hnext : ∀ a m', mid a m' → Safe fails (next a) m' post) :
    Safe fails (step >>= next) m post := by
  intro outcome m' hrun
  rcases run_bind_eq_some.1 hrun with ⟨a, m₁, hs, hn⟩ | ⟨e, hs, rfl⟩
  · exact hnext a m₁ (h _ m₁ hs) outcome m' hn
  · exact h _ m' hs

theorem safe_get_bind {next : Machine → Exec β} {post : β → Machine → Prop}
    (h : Safe fails (next m) m post) : Safe fails (get >>= next) m post :=
  h

theorem safe_set_bind {m₁ : Machine} {next : PUnit → Exec β} {post : β → Machine → Prop}
    (h : Safe fails (next ⟨⟩) m₁ post) : Safe fails (set m₁ >>= next) m post :=
  h

theorem safe_lift_bind {o : Except Error α} {next : α → Exec β} {post : β → Machine → Prop}
    (h : Meets fails (fun a => Safe fails (next a) m post) o) :
    Safe fails (liftM o >>= next) m post := by
  cases o with
  | ok a => exact h
  | error e =>
    rintro outcome m' ⟨⟩
    exact h

theorem Safe.mono {step : Exec α} {post post' : α → Machine → Prop} (h : Safe fails step m post)
    (hpost : ∀ a m', post a m' → post' a m') : Safe fails step m post' :=
  fun outcome m' hrun => (h outcome m' hrun).mono fun a => hpost a m'

theorem safe_inScope {parent : ScopeId} {body : Exec α} {post : α → Machine → Prop}
    (h : Safe fails body (entered m parent) fun a m' => post a (left m m')) :
    Safe fails (inScope parent body) m post := by
  intro outcome m' hrun
  obtain ⟨m₁, hb, rfl⟩ := run_inScope_eq_some.1 hrun
  exact h outcome m₁ hb

/-! ## Loops -/

theorem safe_forEach {step : Value → Exec Flow} {post : Flow → Prop} {inv : Machine → Prop}
    (hnormal : post .normal) : ∀ {items : List Value} {m : Machine},
    (∀ item ∈ items, ∀ m, inv m → Safe fails (step item) m fun flow m' => post flow ∧ inv m') →
    inv m → Safe fails (forEach step items) m fun flow m' => post flow ∧ inv m'
  | [], m, _, hm => safe_pure ⟨hnormal, hm⟩
  | item :: items, m, h, hm => by
    refine safe_bind (h item (.head _) m hm) fun flow m' ⟨hpost, hm'⟩ => ?_
    cases flow with
    | normal => exact safe_forEach hnormal (fun i hi => h i (.tail _ hi)) hm'
    | returned v => exact safe_pure ⟨hpost, hm'⟩

theorem safe_repeatWhile {condition : Exec Bool} {body : Exec Flow} {post : Flow → Prop}
    {inv : Machine → Prop} (hnormal : post .normal)
    (hc : ∀ m, inv m → Safe fails condition m fun _ m' => inv m')
    (hb : ∀ m, inv m → Safe fails body m fun flow m' => post flow ∧ inv m') :
    ∀ {rounds : Nat} {m : Machine}, inv m →
      Safe fails (repeatWhile condition body rounds) m fun flow m' => post flow ∧ inv m'
  | 0, m, _ => safe_exhausted
  | rounds + 1, m, hm => by
    refine safe_bind (hc m hm) fun b m₁ hm₁ => ?_
    cases b with
    | false => exact safe_pure ⟨hnormal, hm₁⟩
    | true =>
      refine safe_bind (hb m₁ hm₁) fun flow m₂ ⟨hpost, hm₂⟩ => ?_
      cases flow with
      | normal => exact safe_repeatWhile hnormal hc hb hm₂
      | returned v => exact safe_pure ⟨hpost, hm₂⟩

end Exec

end TypedImp
