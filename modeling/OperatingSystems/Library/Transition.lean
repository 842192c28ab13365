import Mathlib.Data.List.Basic
import Mathlib.Tactic.Common

namespace OperatingSystems.Transition

structure System (σ α ω : Type) where
  init : σ → Prop
  step : σ → α → Option (ω × σ)

structure Event (σ α ω : Type) where
  before : σ
  action : α
  seen : ω

variable {σ α ω : Type}

inductive Run (M : System σ α ω) : List (Event σ α ω) → σ → Prop
  | start {s : σ} : M.init s → Run M [] s
  | next {tr : List (Event σ α ω)} {s s' : σ} {a : α} {o : ω} :
      Run M tr s → M.step s a = some (o, s') → Run M (tr ++ [⟨s, a, o⟩]) s'

def Reachable (M : System σ α ω) (s : σ) : Prop := ∃ tr, Run M tr s

def Meets (ok : σ → α → Prop) (tr : List (Event σ α ω)) : Prop :=
  ∀ e ∈ tr, ok e.before e.action

instance (ok : σ → α → Prop) [∀ s a, Decidable (ok s a)] (tr : List (Event σ α ω)) :
    Decidable (Meets ok tr) := inferInstanceAs (Decidable (∀ e ∈ tr, _))

def seen (tr : List (Event σ α ω)) : List ω := tr.map Event.seen

@[simp] theorem seen_nil : seen ([] : List (Event σ α ω)) = [] := rfl

@[simp] theorem seen_append (l₁ l₂ : List (Event σ α ω)) : seen (l₁ ++ l₂) = seen l₁ ++ seen l₂ :=
  List.map_append

@[simp] theorem seen_cons (e : Event σ α ω) (l : List (Event σ α ω)) :
    seen (e :: l) = e.seen :: seen l := rfl

@[simp] theorem meets_nil (ok : σ → α → Prop) : Meets ok ([] : List (Event σ α ω)) := by
  simp [Meets]

@[simp] theorem meets_snoc (ok : σ → α → Prop) (tr : List (Event σ α ω)) (e : Event σ α ω) :
    Meets ok (tr ++ [e]) ↔ Meets ok tr ∧ ok e.before e.action := by
  simp [Meets, or_imp, forall_and]

theorem meets_and (p q : σ → α → Prop) (tr : List (Event σ α ω)) :
    Meets (fun s a => p s a ∧ q s a) tr ↔ Meets p tr ∧ Meets q tr := by
  simp [Meets, forall_and]

theorem Run.invariant {M : System σ α ω} {P : List (Event σ α ω) → σ → Prop} {ok : σ → α → Prop}
    (base : ∀ s, M.init s → P [] s)
    (ind : ∀ tr s a o s', Run M tr s → P tr s → ok s a → M.step s a = some (o, s') →
      P (tr ++ [⟨s, a, o⟩]) s')
    {tr : List (Event σ α ω)} {s : σ} (h : Run M tr s) (hok : Meets ok tr) : P tr s := by
  induction h with
  | start hi => exact base _ hi
  | next hr hs ih =>
    obtain ⟨hok, ha⟩ := (meets_snoc _ _ _).mp hok
    exact ind _ _ _ _ _ hr (ih hok) ha hs

theorem Run.state_invariant {M : System σ α ω} {P : σ → Prop} {ok : σ → α → Prop}
    (base : ∀ s, M.init s → P s)
    (ind : ∀ s a o s', P s → ok s a → M.step s a = some (o, s') → P s')
    {tr : List (Event σ α ω)} {s : σ} (h : Run M tr s) (hok : Meets ok tr) : P s :=
  h.invariant (P := fun _ s => P s) base (fun _ s a o s' _ hp ha hs => ind s a o s' hp ha hs) hok

theorem Run.along {M : System σ α ω} {P : List (Event σ α ω) → σ → Prop}
    (base : ∀ s, M.init s → P [] s)
    (ind : ∀ tr s a o s', Run M tr s → P tr s → M.step s a = some (o, s') →
      P (tr ++ [⟨s, a, o⟩]) s')
    {tr : List (Event σ α ω)} {s : σ} (h : Run M tr s) : P tr s := by
  have hall : Meets (fun _ _ => True) tr := fun _ _ => trivial
  exact h.invariant base (fun tr s a o s' hr hp _ hs => ind tr s a o s' hr hp hs) hall

theorem Run.always {M : System σ α ω} {P : σ → Prop}
    (base : ∀ s, M.init s → P s)
    (ind : ∀ s a o s', P s → M.step s a = some (o, s') → P s')
    {tr : List (Event σ α ω)} {s : σ} (h : Run M tr s) : P s :=
  h.along (P := fun _ s => P s) base fun _ s a o s' _ hp hs => ind s a o s' hp hs

theorem Run.visited_iff {M : System σ α ω} {P I : σ → Prop} {ok side : σ → α → Prop}
    (base : ∀ s, M.init s → I s) (holds : ∀ s, I s → P s)
    (good : ∀ s a o s', I s → side s a → ok s a → M.step s a = some (o, s') → I s')
    (bad : ∀ s a o s', I s → side s a → ¬ ok s a → M.step s a = some (o, s') → ¬ P s')
    {tr : List (Event σ α ω)} {s : σ} (h : Run M tr s) (hside : Meets side tr) :
    ((∀ e ∈ tr, P e.before) ∧ P s) ↔ Meets ok tr := by
  induction h with
  | start hi => simp [holds _ (base _ hi)]
  | @next tr s s' a o hr hs ih =>
    obtain ⟨hside, hlast⟩ := (meets_snoc _ _ _).mp hside
    have hinv (hok : Meets ok tr) : I s :=
      hr.state_invariant base (fun s a o s' hi hb => good s a o s' hi hb.1 hb.2)
        ((meets_and side ok tr).mpr ⟨hside, hok⟩)
    have ih := ih hside
    rw [meets_snoc, ← ih]
    constructor
    · rintro ⟨hall, hend⟩
      have hvisited : (∀ e ∈ tr, P e.before) ∧ P s :=
        ⟨fun e he => hall e (by simp [he]), hall ⟨s, a, o⟩ (by simp)⟩
      refine ⟨hvisited, ?_⟩
      by_contra hbad
      exact bad s a o s' (hinv (ih.mp hvisited)) hlast hbad hs hend
    · rintro ⟨hvisited, ha⟩
      refine ⟨fun e he => ?_, holds s' (good s a o s' (hinv (ih.mp hvisited)) hlast ha hs)⟩
      rcases List.mem_append.mp he with he | he
      · exact hvisited.1 e he
      · rw [List.mem_singleton.mp he]
        exact hvisited.2

-- the state that a step of a run leads to, given the steps after it and the last state
def following (tr : List (Event σ α ω)) (s : σ) : σ := (tr.head?.map Event.before).getD s

theorem following_snoc (tr : List (Event σ α ω)) (e : Event σ α ω) (s : σ) :
    following (tr ++ [e]) s = following tr e.before := by
  cases tr <;> rfl

theorem Run.begins {M : System σ α ω} {tr : List (Event σ α ω)} {s : σ} (h : Run M tr s) :
    M.init (following tr s) := by
  induction h with
  | start hi => exact hi
  | next _ _ ih =>
    rw [following_snoc]
    exact ih

theorem Run.steps {M : System σ α ω} {tr tr₁ tr₂ : List (Event σ α ω)} {e : Event σ α ω} {s : σ}
    (h : Run M tr s) (he : tr = tr₁ ++ e :: tr₂) :
    Run M tr₁ e.before ∧ M.step e.before e.action = some (e.seen, following tr₂ s) := by
  induction h generalizing tr₂ with
  | start => simp at he
  | next hr hs ih =>
    rcases List.eq_nil_or_concat tr₂ with rfl | ⟨tr₃, x, rfl⟩
    · obtain ⟨rfl, hlast⟩ := List.append_inj' he rfl
      cases hlast
      exact ⟨hr, hs⟩
    · have he' : _ = (tr₁ ++ e :: tr₃) ++ [x] := he.trans (by simp)
      obtain ⟨htr, hlast⟩ := List.append_inj' he' rfl
      cases hlast
      rw [List.concat_eq_append, following_snoc]
      exact ih htr

theorem Run.event {M : System σ α ω} {tr : List (Event σ α ω)} {s : σ} (h : Run M tr s) :
    ∀ e ∈ tr, ∃ tr₁ s', Run M tr₁ e.before ∧ M.step e.before e.action = some (e.seen, s') := by
  intro e he
  obtain ⟨tr₁, tr₂, hsplit⟩ := List.append_of_mem he
  exact ⟨tr₁, _, h.steps hsplit⟩

theorem Reachable.next {M : System σ α ω} {s s' : σ} {a : α} {o : ω} (h : Reachable M s)
    (hs : M.step s a = some (o, s')) : Reachable M s' := by
  obtain ⟨tr, hr⟩ := h
  exact ⟨_, hr.next hs⟩

theorem Reachable.always {M : System σ α ω} {P : σ → Prop} (base : ∀ s, M.init s → P s)
    (ind : ∀ s a o s', Reachable M s → P s → M.step s a = some (o, s') → P s')
    {s : σ} (h : Reachable M s) : P s := by
  obtain ⟨tr, hr⟩ := h
  exact hr.along (P := fun _ s => P s) base fun tr s a o s' hr hp hs => ind s a o s' ⟨tr, hr⟩ hp hs

-- forward simulation
theorem Reachable.simulated {σ' α' ω' : Type} {M : System σ α ω} {N : System σ' α' ω'}
    {R : σ → σ' → Prop} (base : ∀ s, M.init s → ∃ t, N.init t ∧ R s t)
    (ind : ∀ s t a o s', Reachable N t → R s t → M.step s a = some (o, s') →
      ∃ b o' t', N.step t b = some (o', t') ∧ R s' t')
    {s : σ} (h : Reachable M s) : ∃ t, Reachable N t ∧ R s t := by
  refine h.always (P := fun s => ∃ t, Reachable N t ∧ R s t) (fun s hs => ?_)
    fun s a o s' _ ⟨t, ht, hst⟩ hs => ?_
  · obtain ⟨t, ht, hst⟩ := base s hs
    exact ⟨t, ⟨[], .start ht⟩, hst⟩
  · obtain ⟨b, o', t', hb, hst'⟩ := ind s t a o s' ht hst hs
    exact ⟨t', ht.next hb, hst'⟩

def System.replay (M : System σ α ω) : σ → List α → Option (List (Event σ α ω) × σ)
  | s, [] => some ([], s)
  | s, a :: rest =>
    match M.step s a with
    | none => none
    | some (o, s') => (M.replay s' rest).map fun r => (⟨s, a, o⟩ :: r.1, r.2)

theorem Run.replay {M : System σ α ω} {tr tr' : List (Event σ α ω)} {s s' : σ} {acts : List α}
    (h : Run M tr s) (hr : M.replay s acts = some (tr', s')) :
    Run M (tr ++ tr') s' ∧ tr'.map Event.action = acts := by
  induction acts generalizing tr s tr' with
  | nil =>
    simp only [System.replay, Option.some.injEq, Prod.mk.injEq] at hr
    obtain ⟨rfl, rfl⟩ := hr
    exact ⟨by simpa using h, rfl⟩
  | cons a acts ih =>
    simp only [System.replay] at hr
    split at hr
    · cases hr
    · rename_i o t hs
      obtain ⟨⟨tr₁, t'⟩, hrest, he⟩ := Option.map_eq_some_iff.mp hr
      cases he
      obtain ⟨hrun, hact⟩ := ih (h.next hs) hrest
      exact ⟨by simpa using hrun, by simp [hact]⟩

theorem replay_run {M : System σ α ω} {s : σ} (hi : M.init s) (acts : List α)
    (P : List (Event σ α ω) → σ → Prop) [∀ tr t, Decidable (P tr t)]
    (hr : (M.replay s acts).any fun r => decide (P r.1 r.2)) :
    ∃ tr t, Run M tr t ∧ tr.map Event.action = acts ∧ P tr t := by
  obtain ⟨⟨tr, t⟩, he, hp⟩ := (Option.any_eq_true _ _).mp hr
  obtain ⟨hrun, hact⟩ := (Run.start hi).replay he
  exact ⟨tr, t, hrun, hact, of_decide_eq_true hp⟩

end OperatingSystems.Transition
