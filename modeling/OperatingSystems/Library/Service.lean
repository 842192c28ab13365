import Mathlib.Logic.Relation
import OperatingSystems.Library.Transition

namespace OperatingSystems.Calling
open Transition

-- an object that threads call: a call is accepted, works on by inner steps, and returns
structure Service (σ τ κ ρ ι : Type) where
  init : σ → Prop
  call : σ → τ → κ → Option σ
  run : σ → ι → Option σ
  ret : σ → τ → Option (ρ × σ)

-- what the threads do between their calls; `move` is `none` while a thread is at a call
structure Client (γ τ κ ρ : Type) where
  init : γ → Prop
  ask : γ → τ → Option κ
  answer : γ → τ → ρ → γ
  move : γ → τ → Option γ

inductive Act (τ ι : Type)
  | call (t : τ)
  | run (i : ι)
  | ret (t : τ)
  | move (t : τ)

variable {σ σ' τ κ ρ ι ι' γ : Type}

namespace Service

inductive Visited (S : Service σ τ κ ρ ι) : σ → Prop
  | init {s : σ} (h : S.init s) : Visited S s
  | call {s s' : σ} {t : τ} {k : κ} (v : Visited S s) (h : S.call s t k = some s') : Visited S s'
  | run {s s' : σ} {i : ι} (v : Visited S s) (h : S.run s i = some s') : Visited S s'
  | ret {s s' : σ} {t : τ} {r : ρ} (v : Visited S s) (h : S.ret s t = some (r, s')) : Visited S s'

def Moved (S : Service σ τ κ ρ ι) (s s' : σ) : Prop := ∃ i, S.run s i = some s'

end Service

def hosted (S : Service σ τ κ ρ ι) (C : Client γ τ κ ρ) : System (σ × γ) (Act τ ι) Unit where
  init p := S.init p.1 ∧ C.init p.2
  step p
    | .call t => (C.ask p.2 t).bind fun k => (S.call p.1 t k).map fun s => ((), s, p.2)
    | .run i => (S.run p.1 i).map fun s => ((), s, p.2)
    | .ret t => (S.ret p.1 t).map fun r => ((), r.2, C.answer p.2 t r.1)
    | .move t => (C.move p.2 t).map fun g => ((), p.1, g)

inductive Hosted (S : Service σ τ κ ρ ι) (C : Client γ τ κ ρ) (s : σ) (g : γ) :
    σ → γ → Prop
  | call {s' : σ} (t : τ) (k : κ) (asked : C.ask g t = some k) (called : S.call s t k = some s') :
      Hosted S C s g s' g
  | run {s' : σ} (i : ι) (ran : S.run s i = some s') : Hosted S C s g s' g
  | ret {s' : σ} (t : τ) (r : ρ) (returned : S.ret s t = some (r, s')) :
      Hosted S C s g s' (C.answer g t r)
  | move {g' : γ} (t : τ) (moved : C.move g t = some g') : Hosted S C s g s g'

variable {S : Service σ τ κ ρ ι} {A : Service σ' τ κ ρ ι'} {C : Client γ τ κ ρ} {s s' : σ}
  {g g' : γ}

theorem hosted_step {a : Act τ ι} (h : (hosted S C).step (s, g) a = some ((), s', g')) :
    Hosted S C s g s' g' := by
  cases a with
  | call t =>
    obtain ⟨k, hk, h⟩ := Option.bind_eq_some_iff.mp h
    obtain ⟨u, hu, he⟩ := Option.map_eq_some_iff.mp h
    cases he
    exact .call t k hk hu
  | run i =>
    obtain ⟨u, hu, he⟩ := Option.map_eq_some_iff.mp h
    cases he
    exact .run i hu
  | ret t =>
    obtain ⟨⟨r, u⟩, hu, he⟩ := Option.map_eq_some_iff.mp h
    cases he
    exact .ret t r hu
  | move t =>
    obtain ⟨u, hu, he⟩ := Option.map_eq_some_iff.mp h
    cases he
    exact .move t hu

theorem step_hosted (h : Hosted S C s g s' g') :
    ∃ a, (hosted S C).step (s, g) a = some ((), s', g') := by
  cases h with
  | call t k asked called => exact ⟨.call t, by simp [hosted, asked, called]⟩
  | run i ran => exact ⟨.run i, by simp [hosted, ran]⟩
  | ret t r returned => exact ⟨.ret t, by simp [hosted, returned]⟩
  | move t moved => exact ⟨.move t, by simp [hosted, moved]⟩

theorem Reachable.hosted (hr : Reachable (hosted S C) (s, g)) (h : Hosted S C s g s' g') :
    Reachable (Calling.hosted S C) (s', g') := by
  obtain ⟨a, ha⟩ := step_hosted h
  exact hr.next ha

theorem hosted_always {P : σ → γ → Prop} (base : ∀ s g, S.init s → C.init g → P s g)
    (ind : ∀ s g s' g', Reachable (hosted S C) (s, g) → P s g → Hosted S C s g s' g' → P s' g')
    (h : Reachable (hosted S C) (s, g)) : P s g := by
  have hp := h.always (P := fun p : σ × γ => P p.1 p.2)
    (fun p (hi : S.init p.1 ∧ C.init p.2) => base p.1 p.2 hi.1 hi.2) ?_
  · exact hp
  · rintro ⟨s, g⟩ a ⟨⟩ ⟨s', g'⟩ hr hp hs
    exact ind s g s' g' hr hp (hosted_step hs)

theorem hosted_visited (h : Reachable (hosted S C) (s, g)) : S.Visited s := by
  refine hosted_always (P := fun s _ => S.Visited s) (fun s _ hs _ => .init hs)
    (fun s g s' g' _ hv hs => ?_) h
  cases hs with
  | call t k asked called => exact .call hv called
  | run i ran => exact .run hv ran
  | ret t r returned => exact .ret hv returned
  | move t moved => exact hv

theorem reachable_moved (hr : Reachable (hosted S C) (s, g))
    (h : Relation.ReflTransGen S.Moved s s') : Reachable (hosted S C) (s', g) := by
  induction h with
  | refl => exact hr
  | tail _ hm ih =>
    obtain ⟨i, hi⟩ := hm
    exact Reachable.hosted ih (.run i hi)

structure Simulates (S : Service σ τ κ ρ ι) (A : Service σ' τ κ ρ ι') (R : σ → σ' → Prop) :
    Prop where
  init : ∀ s, S.init s → ∃ a, A.init a ∧ R s a
  call : ∀ s s' a t k, S.Visited s → R s a → S.call s t k = some s' →
    ∃ a₁ a', A.call a t k = some a₁ ∧ Relation.ReflTransGen A.Moved a₁ a' ∧ R s' a'
  run : ∀ s s' a i, S.Visited s → R s a → S.run s i = some s' →
    ∃ a', Relation.ReflTransGen A.Moved a a' ∧ R s' a'
  ret : ∀ s s' a t r, S.Visited s → R s a → S.ret s t = some (r, s') →
    ∃ a', A.ret a t = some (r, a') ∧ R s' a'

theorem Simulates.hosted {R : σ → σ' → Prop} (hsim : Simulates S A R)
    (h : Reachable (hosted S C) (s, g)) : ∃ a, Reachable (Calling.hosted A C) (a, g) ∧ R s a := by
  refine hosted_always (P := fun s g => ∃ a, Reachable (Calling.hosted A C) (a, g) ∧ R s a)
    (fun s g hs hg => ?_) (fun s g s' g' hr hp hs => ?_) h
  · obtain ⟨a, ha, hR⟩ := hsim.init s hs
    exact ⟨a, ⟨[], .start ⟨ha, hg⟩⟩, hR⟩
  · obtain ⟨a, ha, hR⟩ := hp
    have hv := hosted_visited hr
    cases hs with
    | call t k asked called =>
      obtain ⟨a₁, a', hcall, hmoved, hR'⟩ := hsim.call s s' a t k hv hR called
      exact ⟨a', reachable_moved (Reachable.hosted ha (.call t k asked hcall)) hmoved, hR'⟩
    | run i ran =>
      obtain ⟨a', hmoved, hR'⟩ := hsim.run s s' a i hv hR ran
      exact ⟨a', reachable_moved ha hmoved, hR'⟩
    | ret t r returned =>
      obtain ⟨a', hret, hR'⟩ := hsim.ret s s' a t r hv hR returned
      exact ⟨a', Reachable.hosted ha (.ret t r hret), hR'⟩
    | move t moved => exact ⟨a, Reachable.hosted ha (.move t moved), hR⟩

-- nothing is left to do but inner steps that are not `due`
structure Service.Rests (S : Service σ τ κ ρ ι) (due : ι → Prop) (s : σ) : Prop where
  run : ∀ i, due i → S.run s i = none
  ret : ∀ t, S.ret s t = none

structure Stuck (S : Service σ τ κ ρ ι) (C : Client γ τ κ ρ) (due : ι → Prop) (s : σ) (g : γ) :
    Prop where
  rests : S.Rests due s
  call : ∀ t k, C.ask g t = some k → S.call s t k = none
  move : ∀ t, C.move g t = none

structure Refines (S : Service σ τ κ ρ ι) (due : ι → Prop) (A : Service σ' τ κ ρ ι')
    (due' : ι' → Prop) (R : σ → σ' → Prop) : Prop extends Simulates S A R where
  rests : ∀ s a, S.Visited s → R s a → S.Rests due s → A.Rests due' a
  accepts : ∀ s a t k, S.Visited s → R s a → S.call s t k = none → A.call a t k = none

-- so a client that never gets stuck on `A` never gets stuck on `S`
theorem Refines.stuck {R : σ → σ' → Prop} {due : ι → Prop} {due' : ι' → Prop}
    (href : Refines S due A due' R) (h : Reachable (Calling.hosted S C) (s, g))
    (hstuck : Stuck S C due s g) :
    ∃ a, Reachable (Calling.hosted A C) (a, g) ∧ R s a ∧ Stuck A C due' a g := by
  obtain ⟨a, ha, hR⟩ := href.hosted h
  have hv := hosted_visited h
  exact ⟨a, ha, hR, href.rests s a hv hR hstuck.rests,
    fun t k hk => href.accepts s a t k hv hR (hstuck.call t k hk), hstuck.move⟩

def scripted (calls : τ → List κ) [DecidableEq τ] :
    Client (τ → List κ × List ρ) τ κ ρ where
  init g := g = fun t => (calls t, [])
  ask g t := (g t).1.head?
  answer g t r := Function.update g t ((g t).1.tail, (g t).2 ++ [r])
  move _ _ := none

end OperatingSystems.Calling
