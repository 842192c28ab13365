import OperatingSystems.Concurrency.Quiescence

namespace OperatingSystems.Concurrency
open Calling Transition

variable {μ τ χ α : Type} {ν : τ → Type}

-- threads with variables of their own and one shared memory; `move` is one access to it
structure Program (μ τ : Type) (ν : τ → Type) (χ α : Type) where
  init : (∀ t, ν t) → μ → Prop
  ask : ∀ t, ν t → Option (Call χ α)
  answer : ∀ t, ν t → Result α → ν t
  move : ∀ t, ν t → μ → Option (ν t × μ)

@[ext]
structure World (μ τ : Type) (ν : τ → Type) (χ α : Type) where
  queue : χ → List α
  closed : χ → Bool
  thread : ∀ t, ν t
  memory : μ

inductive Asked (k : Option (Call χ α)) : Phase χ α → Prop
  | idle : Asked k .idle
  | asking {k' : Call χ α} {m : Mode} {waited : Bool} {offers : List (Offer χ α)}
      (ask : k = some k') (phase : k'.phase = .asking m false offers)
      (blocking : waited = true → m = .blocking) : Asked k (.asking m waited offers)
  | closing {k' : Call χ α} {c : χ} (ask : k = some k') (phase : k'.phase = .closing c) :
      Asked k (.closing c)
  | answered {r : Result α} (ask : k.isSome) : Asked k (.answered r)

theorem asked_none {k : Option (Call χ α)} {p : Phase χ α} (h : Asked k p) (hk : k = none) :
    p = .idle := by
  subst hk
  cases h with
  | idle => rfl
  | asking ask => cases ask
  | closing ask => cases ask
  | answered ask => cases ask

theorem asked_phase (k : Call χ α) : Asked (some k) k.phase := by
  cases h : k.phase with
  | idle => exact .idle
  | asking m waited offers =>
    cases waited with
    | false => exact .asking rfl h (by simp)
    | true =>
      cases k with
      | select es =>
        simp only [Call.phase] at h
        split at h <;> cases h
      | _ => simp [Call.phase] at h
  | closing c => exact .closing rfl h
  | answered r => exact .answered rfl

theorem singleton_offer {f f' : Offer χ α} {i : Nat} (h : [f][i]? = some f') : f' = f := by
  rw [List.getElem?_singleton] at h
  split at h
  · exact (Option.some.inj h).symm
  · cases h

theorem select_phase {es : List (Entry χ α)} {m : Mode} {waited : Bool} {offers : List (Offer χ α)}
    (h : (Call.select es).phase = .asking m waited offers) :
    m = .select ∧ offers = es.map Entry.offer := by
  simp only [Call.phase] at h
  split at h
  · cases h
  · cases h
    exact ⟨rfl, rfl⟩

theorem select_offer {es : List (Entry χ α)} {i : Nat} {f : Offer χ α}
    (h : (es.map Entry.offer)[i]? = some f) : ∃ e, es[i]? = some e ∧ e.offer = f := by
  rw [List.getElem?_map] at h
  exact Option.map_eq_some_iff.mp h

theorem entry_phase {es : List (Entry χ α)} {i : Nat} {e : Entry χ α} (h : es[i]? = some e) :
    (Call.select es).phase = .asking .select false (es.map Entry.offer) := by
  refine if_neg fun hnil => ?_
  simp [hnil] at h

theorem entry_offer {es : List (Entry χ α)} {i : Nat} {e : Entry χ α} (h : es[i]? = some e) :
    (es.map Entry.offer)[i]? = some e.offer := by
  rw [List.getElem?_map, h, Option.map_some]

variable [DecidableEq τ]

def Program.client (P : Program μ τ ν χ α) : Client ((∀ t, ν t) × μ) τ (Call χ α) (Result α) where
  init g := P.init g.1 g.2
  ask g t := P.ask t (g.1 t)
  answer g t r := (Function.update g.1 t (P.answer t (g.1 t) r), g.2)
  move g t :=
    if (P.ask t (g.1 t)).isSome then none
    else (P.move t (g.1 t) g.2).map fun r => (Function.update g.1 t r.1, r.2)

@[simps]
def World.set (w : World μ τ ν χ α) (t : τ) (l : ν t) : World μ τ ν χ α :=
  { w with thread := Function.update w.thread t l }

def Program.settle (P : Program μ τ ν χ α) (t : τ) (l : ν t) : Phase χ α → ν t
  | .answered r => P.answer t l r
  | _ => l

def Program.world (P : Program μ τ ν χ α) (q : Queues τ χ α) (g : (∀ t, ν t) × μ) :
    World μ τ ν χ α where
  queue := q.queue
  closed := q.closed
  thread t := P.settle t (g.1 t) (q.phase t)
  memory := g.2

section
variable {P : Program μ τ ν χ α} {q : Queues τ χ α} {g : (∀ t, ν t) × μ}

theorem world_enter (t : τ) (p : Phase χ α) :
    P.world (q.enter t p) g = (P.world q g).set t (P.settle t (g.1 t) p) := by
  ext1
  · rfl
  · rfl
  · funext u
    by_cases hu : u = t
    · subst hu
      simp [Program.world]
    · simp [Program.world, hu]
  · rfl

theorem set_here {w : World μ τ ν χ α} {t : τ} {l : ν t} (h : w.thread t = l) : w.set t l = w := by
  subst h
  ext1
  · rfl
  · rfl
  · exact Function.update_eq_self t w.thread
  · rfl

end

variable [DecidableEq χ]

-- the threads when every call takes effect and returns in one step
inductive Turn (P : Program μ τ ν χ α) (size : χ → Nat) (w : World μ τ ν χ α) :
    World μ τ ν χ α → Prop
  | take (t : τ) (i : Nat) {l : ν t} {k : Call χ α} {m : Mode} {offers : List (Offer χ α)}
      {f : Offer χ α} {v : α} {queue : χ → List α} (here : w.thread t = l)
      (ask : P.ask t l = some k) (phase : k.phase = .asking m false offers)
      (offer : offers[i]? = some f) (isOpen : w.closed f.channel = false ∨ m = .blocking)
      (taken : f.take size w.queue = some (v, queue)) :
      Turn P size w ({ w with queue := queue }.set t (P.answer t l ⟨.success, m.index i, some v⟩))
  | deny (t : τ) (i : Nat) {l : ν t} {k : Call χ α} {m : Mode} {offers : List (Offer χ α)}
      {f : Offer χ α} (here : w.thread t = l) (ask : P.ask t l = some k)
      (phase : k.phase = .asking m false offers) (offer : offers[i]? = some f)
      (closed : w.closed f.channel = true) :
      Turn P size w (w.set t (P.answer t l ⟨.closedError, m.index i, none⟩))
  | refuse (t : τ) {l : ν t} {k : Call χ α} {offers : List (Offer χ α)} (here : w.thread t = l)
      (ask : P.ask t l = some k) (phase : k.phase = .asking .nonblocking false offers)
      (held : ∀ f ∈ offers, w.closed f.channel = false ∧ f.take size w.queue = none) :
      Turn P size w (w.set t (P.answer t l ⟨.channelFull, none, none⟩))
  | error (t : τ) {l : ν t} {k : Call χ α} {r : Result α} (here : w.thread t = l)
      (ask : P.ask t l = some k) (phase : k.phase = .answered r) :
      Turn P size w (w.set t (P.answer t l r))
  | closeAgain (t : τ) {l : ν t} {k : Call χ α} {c : χ} (here : w.thread t = l)
      (ask : P.ask t l = some k) (phase : k.phase = .closing c) (closed : w.closed c = true) :
      Turn P size w (w.set t (P.answer t l ⟨.closedError, none, none⟩))
  | close (t : τ) {l : ν t} {k : Call χ α} {c : χ} (here : w.thread t = l)
      (ask : P.ask t l = some k) (phase : k.phase = .closing c) (isOpen : w.closed c = false) :
      Turn P size w ({ w with closed := Function.update w.closed c true }.set t
        (P.answer t l ⟨.success, none, none⟩))
  | move (t : τ) {l l' : ν t} {memory : μ} (here : w.thread t = l) (ask : P.ask t l = none)
      (moved : P.move t l w.memory = some (l', memory)) :
      Turn P size w ({ w with memory := memory }.set t l')

inductive Reached (P : Program μ τ ν χ α) (size : χ → Nat) : World μ τ ν χ α → Prop
  | start {w : World μ τ ν χ α} (queue : ∀ c, w.queue c = []) (closed : ∀ c, w.closed c = false)
      (init : P.init w.thread w.memory) : Reached P size w
  | turn {w w' : World μ τ ν χ α} (before : Reached P size w) (turn : Turn P size w w') :
      Reached P size w'

section
variable {P : Program μ τ ν χ α} {size : χ → Nat} {q q' : Queues τ χ α} {g : (∀ t, ν t) × μ}

theorem committed_turn {k : Commit τ} (hasked : ∀ t, Asked (P.ask t (g.1 t)) (q.phase t))
    (h : Committed size q k q') : (∀ t, Asked (P.ask t (g.1 t)) (q'.phase t)) ∧
      (P.world q' g = P.world q g ∨ Turn P size (P.world q g) (P.world q' g)) := by
  have others {t : τ} {p : Phase χ α} (hp : Asked (P.ask t (g.1 t)) p) (queue : χ → List α)
      (closed : χ → Bool) (u : τ) :
      Asked (P.ask u (g.1 u)) ((Queues.enter ⟨queue, closed, q.phase⟩ t p).phase u) := by
    by_cases hu : u = t
    · subst hu
      simpa using hp
    · simpa [hu] using hasked u
  have here {t : τ} {p : Phase χ α} (hp : q.phase t = p) :
      (P.world q g).thread t = P.settle t (g.1 t) p := by
    rw [← hp]
    rfl
  cases h with
  | take t i phase offer isOpen taken =>
    cases phase ▸ hasked t with
    | asking ask kphase blocking =>
      refine ⟨others (.answered (by simp [ask])) _ _, .inr ?_⟩
      rw [Queues.answer, world_enter]
      exact .take t i (here phase) ask kphase offer (isOpen.imp_right blocking) taken
  | deny t i phase offer closed stuck =>
    cases phase ▸ hasked t with
    | asking ask kphase blocking =>
      refine ⟨others (.answered (by simp [ask])) _ _, .inr ?_⟩
      rw [Queues.answer, world_enter]
      exact .deny t i (here phase) ask kphase offer closed
  | refuse t phase held =>
    cases phase ▸ hasked t with
    | asking ask kphase blocking =>
      refine ⟨others (.answered (by simp [ask])) _ _, .inr ?_⟩
      rw [Queues.answer, world_enter]
      exact .refuse t (here phase) ask kphase fun f hf =>
        ⟨(held f hf).1, Option.isNone_iff_eq_none.mp (held f hf).2⟩
  | wait t phase held =>
    cases phase ▸ hasked t with
    | asking ask kphase blocking =>
      refine ⟨others (.asking ask kphase fun _ => rfl) _ _, .inl ?_⟩
      rw [world_enter]
      exact set_here ((here phase).trans rfl)
  | closeAgain t phase closed =>
    cases phase ▸ hasked t with
    | closing ask kphase =>
      refine ⟨others (.answered (by simp [ask])) _ _, .inr ?_⟩
      rw [Queues.answer, world_enter]
      exact .closeAgain t (here phase) ask kphase closed
  | close t phase isOpen =>
    cases phase ▸ hasked t with
    | closing ask kphase =>
      refine ⟨others (.answered (by simp [ask])) _ _, .inr ?_⟩
      rw [Queues.answer, world_enter]
      exact .close t (here phase) ask kphase isOpen

theorem hosted_turn {q' : Queues τ χ α} {g' : (∀ t, ν t) × μ}
    (hasked : ∀ t, Asked (P.ask t (g.1 t)) (q.phase t))
    (h : Hosted (queues size) P.client q g q' g') :
    (∀ t, Asked (P.ask t (g'.1 t)) (q'.phase t)) ∧
      (P.world q' g' = P.world q g ∨ Turn P size (P.world q g) (P.world q' g')) := by
  cases h with
  | run k ran => exact committed_turn hasked (committed_iff.mp ran)
  | call t k asked called =>
    simp only [queues] at called
    split at called
    · rename_i hidle
      cases called
      have hask : P.ask t (g.1 t) = some k := asked
      have here : (P.world q g).thread t = g.1 t := by simp [Program.world, hidle, Program.settle]
      refine ⟨fun u => ?_, ?_⟩
      · by_cases hu : u = t
        · subst hu
          rw [hask]
          simpa using asked_phase k
        · simpa [hu] using hasked u
      · rw [world_enter]
        cases hk : k.phase with
        | answered r => exact .inr (.error t here hask hk)
        | _ => exact .inl (set_here here)
    · cases called
  | ret t r returned =>
    simp only [queues] at returned
    split at returned
    · rename_i r' hphase
      cases returned
      refine ⟨fun u => ?_, .inl ?_⟩
      · by_cases hu : u = t
        · subst hu
          simpa using Asked.idle
        · simpa [hu, Program.client] using hasked u
      · ext1
        · rfl
        · rfl
        · funext u
          by_cases hu : u = t
          · subst hu
            simp [Program.world, Program.client, Program.settle, hphase]
          · simp [Program.world, Program.client, hu]
        · rfl
    · cases returned
  | move t moved =>
    simp only [Program.client] at moved
    split at moved
    · cases moved
    · rename_i hask
      obtain ⟨⟨l, memory⟩, hmove, he⟩ := Option.map_eq_some_iff.mp moved
      cases he
      have hask : P.ask t (g.1 t) = none := by simpa using hask
      have hidle := asked_none (hasked t) hask
      have here : (P.world q g).thread t = g.1 t := by simp [Program.world, hidle, Program.settle]
      refine ⟨fun u => ?_, .inr ?_⟩
      · by_cases hu : u = t
        · subst hu
          rw [hidle]
          exact .idle
        · simpa [hu] using hasked u
      · have hworld : P.world q (Function.update g.1 t l, memory) =
            { P.world q g with memory := memory }.set t l := by
          ext1
          · rfl
          · rfl
          · funext u
            by_cases hu : u = t
            · subst hu
              simp [Program.world, hidle, Program.settle]
            · simp [Program.world, hu]
          · rfl
        rw [hworld]
        exact .move t here hask hmove

theorem client_asked (h : Reachable (hosted (queues size) P.client) (q, g)) :
    (∀ t, Asked (P.ask t (g.1 t)) (q.phase t)) ∧ Reached P size (P.world q g) := by
  refine hosted_always (P := fun q g => (∀ t, Asked (P.ask t (g.1 t)) (q.phase t)) ∧
    Reached P size (P.world q g)) (fun q g hq hg => ?_) (fun q g q' g' _ hp hs => ?_) h
  · obtain ⟨hqueue, hclosed, hidle⟩ := hq
    refine ⟨fun t => hidle t ▸ .idle, .start hqueue hclosed ?_⟩
    have hthread : (P.world q g).thread = g.1 := by
      funext t
      simp [Program.world, hidle, Program.settle]
    rw [hthread]
    exact hg
  · obtain ⟨hasked, hreached⟩ := hp
    obtain ⟨hasked', hsame | hturn⟩ := hosted_turn hasked hs
    · exact ⟨hasked', hsame ▸ hreached⟩
    · exact ⟨hasked', .turn hreached hturn⟩

theorem stuck_turn (hasked : ∀ t, Asked (P.ask t (g.1 t)) (q.phase t))
    (h : Stuck (queues size) P.client Commit.due q g) (w' : World μ τ ν χ α) :
    ¬ Turn P size (P.world q g) w' := by
  have noRun {k : Commit τ} {q' : Queues τ χ α} (hk : Committed size q k q') (hdue : k.due) :
      False := by
    have hnone := h.rests.run k hdue
    rw [show (queues size).run q k = some q' from committed_iff.mpr hk] at hnone
    cases hnone
  have hlocal (t : τ) : (P.world q g).thread t = g.1 t := by
    cases hp : q.phase t with
    | answered r =>
      have hnone := h.rests.ret t
      simp [queues, hp] at hnone
    | _ => simp [Program.world, Program.settle, hp]
  have asking {t : τ} {l : ν t} {k : Call χ α} (here : (P.world q g).thread t = l)
      (ask : P.ask t l = some k) : (∃ m waited offers, q.phase t = .asking m waited offers ∧
        k.phase = .asking m false offers ∧ (waited = true → m = .blocking)) ∨
          ∃ c, q.phase t = .closing c ∧ k.phase = .closing c := by
    subst here
    rw [hlocal] at ask
    have hcases := hasked t
    generalize hp : q.phase t = p at hcases
    cases hcases with
    | idle =>
      have hnone := h.call t k ask
      simp [queues, hp] at hnone
    | asking ask' kphase blocking =>
      cases ask.symm.trans ask'
      exact .inl ⟨_, _, _, rfl, kphase, blocking⟩
    | closing ask' kphase =>
      cases ask.symm.trans ask'
      exact .inr ⟨_, rfl, kphase⟩
    | answered =>
      have hnone := h.rests.ret t
      simp [queues, hp] at hnone
  intro hturn
  cases hturn with
  | @take t i l k m offers f v queue here ask phase offer isOpen taken =>
    rcases asking here ask with ⟨m, waited, offers, hp, hk, hb⟩ | ⟨c, -, hk⟩
    · cases phase.symm.trans hk
      by_cases hw : q.closed f.channel = false ∨ waited = true
      · exact noRun (.take t i hp offer hw taken) trivial
      · obtain ⟨hclosed, hw⟩ := not_or.mp hw
        exact noRun (.deny t i hp offer (by simpa using hclosed) fun h => absurd h hw) trivial
    · cases phase.symm.trans hk
  | @deny t i l k m offers f here ask phase offer closed =>
    rcases asking here ask with ⟨m, waited, offers, hp, hk, hb⟩ | ⟨c, -, hk⟩
    · cases phase.symm.trans hk
      by_cases hw : waited = true → f.take size q.queue = none
      · exact noRun (.deny t i hp offer closed hw) trivial
      · obtain ⟨hw, htake⟩ := Classical.not_imp.mp hw
        obtain ⟨r, hr⟩ := Option.ne_none_iff_exists'.mp htake
        exact noRun (.take t i hp offer (.inr hw) hr) trivial
    · cases phase.symm.trans hk
  | refuse t here ask phase held =>
    rcases asking here ask with ⟨m, waited, offers, hp, hk, hb⟩ | ⟨c, -, hk⟩
    · cases phase.symm.trans hk
      exact noRun (.refuse t hp fun f hf => ⟨(held f hf).1, Option.isNone_iff_eq_none.mpr (held f hf).2⟩)
        trivial
    · cases phase.symm.trans hk
  | error t here ask phase =>
    rcases asking here ask with ⟨m, waited, offers, hp, hk, hb⟩ | ⟨c, -, hk⟩
    · cases phase.symm.trans hk
    · cases phase.symm.trans hk
  | closeAgain t here ask phase closed =>
    rcases asking here ask with ⟨m, waited, offers, hp, hk, hb⟩ | ⟨c, hp, hk⟩
    · cases phase.symm.trans hk
    · cases phase.symm.trans hk
      exact noRun (.closeAgain t hp closed) trivial
  | close t here ask phase isOpen =>
    rcases asking here ask with ⟨m, waited, offers, hp, hk, hb⟩ | ⟨c, hp, hk⟩
    · cases phase.symm.trans hk
    · cases phase.symm.trans hk
      exact noRun (.close t hp isOpen) trivial
  | move t here ask moved =>
    subst here
    rw [hlocal] at ask moved
    have hnone := h.move t
    simp only [Program.client, ask] at hnone
    rw [show P.move t (g.1 t) g.2 = _ from moved] at hnone
    cases hnone

end

section
variable [Fintype τ] {P : Program μ τ ν χ α} {size : χ → Nat} {s : State τ χ α} {g : (∀ t, ν t) × μ}

theorem channels_reached (hsize : ∀ c, size c ≠ 0)
    (h : Reachable (hosted (threads size) P.client) (s, g)) :
    Reached P size (P.world s.queues g) := by
  obtain ⟨q, hq, rfl⟩ := (queues_refine hsize).hosted h
  exact (client_asked hq).2

theorem channels_stuck (hsize : ∀ c, size c ≠ 0)
    (h : Reachable (hosted (threads size) P.client) (s, g))
    (hstuck : Stuck (threads size) P.client Action.due s g) (w' : World μ τ ν χ α) :
    ¬ Turn P size (P.world s.queues g) w' := by
  obtain ⟨q, hq, rfl, hstuck⟩ := (queues_refine hsize).stuck h hstuck
  exact stuck_turn (client_asked hq).1 hstuck w'

end

def Call.plain : Call χ α → Prop
  | .nonBlockingSend _ _ => False
  | .nonBlockingReceive _ => False
  | _ => True

inductive Effect (size : χ → Nat) (queue : χ → List α) (closed : χ → Bool) :
    Call χ α → Result α → (χ → List α) → (χ → Bool) → Prop
  | send (c : χ) (v : α) (room : (queue c).length < size c) :
      Effect size queue closed (.send c v) ⟨.success, none, some v⟩
        (Function.update queue c (queue c ++ [v])) closed
  | receive (c : χ) {v : α} {rest : List α} (head : queue c = v :: rest) :
      Effect size queue closed (.receive c) ⟨.success, none, some v⟩
        (Function.update queue c rest) closed
  | denied {k : Call χ α} {c : χ} (call : (∃ v, k = .send c v) ∨ k = .receive c)
      (shut : closed c = true) : Effect size queue closed k ⟨.closedError, none, none⟩ queue closed
  | selectSend {es : List (Entry χ α)} {e : Entry χ α} (i : Nat) (entry : es[i]? = some e)
      (dir : e.dir = .send) (isOpen : closed e.channel = false)
      (room : (queue e.channel).length < size e.channel) :
      Effect size queue closed (.select es) ⟨.success, some i, some e.data⟩
        (Function.update queue e.channel (queue e.channel ++ [e.data])) closed
  | selectReceive {es : List (Entry χ α)} {e : Entry χ α} {v : α} {rest : List α} (i : Nat)
      (entry : es[i]? = some e) (dir : e.dir = .recv) (isOpen : closed e.channel = false)
      (head : queue e.channel = v :: rest) :
      Effect size queue closed (.select es) ⟨.success, some i, some v⟩
        (Function.update queue e.channel rest) closed
  | selectDenied {es : List (Entry χ α)} {e : Entry χ α} (i : Nat) (entry : es[i]? = some e)
      (shut : closed e.channel = true) :
      Effect size queue closed (.select es) ⟨.closedError, some i, none⟩ queue closed
  | selectNothing : Effect size queue closed (.select []) ⟨.genericError, none, none⟩ queue closed
  | close (c : χ) (isOpen : closed c = false) :
      Effect size queue closed (.close c) ⟨.success, none, none⟩ queue
        (Function.update closed c true)
  | closeAgain (c : χ) (shut : closed c = true) :
      Effect size queue closed (.close c) ⟨.closedError, none, none⟩ queue closed

section
variable {P : Program μ τ ν χ α} {size : χ → Nat} {w w' : World μ τ ν χ α}

theorem take_send {queue queue' : χ → List α} {c : χ} {v v' : α}
    (h : (Offer.send c v).take size queue = some (v', queue')) :
    (queue c).length < size c ∧ v' = v ∧ queue' = Function.update queue c (queue c ++ [v]) := by
  simp only [Offer.take] at h
  split at h
  · cases h
    exact ⟨‹_›, rfl, rfl⟩
  · cases h

theorem take_receive {queue queue' : χ → List α} {c : χ} {v : α}
    (h : (Offer.receive c).take size queue = some (v, queue')) :
    ∃ rest, queue c = v :: rest ∧ queue' = Function.update queue c rest := by
  simp only [Offer.take] at h
  split at h
  · cases h
  · rename_i rest hq
    cases h
    exact ⟨rest, hq, rfl⟩

inductive Took (P : Program μ τ ν χ α) (size : χ → Nat) (w : World μ τ ν χ α) :
    World μ τ ν χ α → Prop
  | call (t : τ) {k : Call χ α} {r : Result α} {queue : χ → List α} {closed : χ → Bool}
      (ask : P.ask t (w.thread t) = some k) (effect : Effect size w.queue w.closed k r queue closed) :
      Took P size w ({ w with queue := queue, closed := closed }.set t (P.answer t (w.thread t) r))
  | move (t : τ) {l : ν t} {memory : μ} (ask : P.ask t (w.thread t) = none)
      (moved : P.move t (w.thread t) w.memory = some (l, memory)) :
      Took P size w ({ w with memory := memory }.set t l)

theorem turn_took (hplain : ∀ t l k, P.ask t l = some k → k.plain) (h : Turn P size w w') :
    Took P size w w' := by
  cases h with
  | @take t i l k m offers f v queue here ask phase offer isOpen taken =>
    subst here
    cases k with
    | send c v =>
      cases phase
      cases singleton_offer offer
      obtain ⟨hroom, rfl, rfl⟩ := take_send taken
      exact .call t ask (.send c v hroom)
    | receive c =>
      cases phase
      cases singleton_offer offer
      obtain ⟨rest, hhead, rfl⟩ := take_receive taken
      exact .call t ask (.receive c hhead)
    | select es =>
      obtain ⟨rfl, rfl⟩ := select_phase phase
      obtain ⟨e, he, rfl⟩ := select_offer offer
      have hopen : w.closed e.channel = false := by simpa [Entry.offer] using isOpen
      cases hd : e.dir with
      | send =>
        rw [Entry.offer, hd] at taken
        obtain ⟨hroom, rfl, rfl⟩ := take_send taken
        exact .call t ask (.selectSend i he hd hopen hroom)
      | recv =>
        rw [Entry.offer, hd] at taken
        obtain ⟨rest, hhead, rfl⟩ := take_receive taken
        exact .call t ask (.selectReceive i he hd hopen hhead)
    | close c => cases phase
    | nonBlockingSend | nonBlockingReceive => exact (hplain t _ _ ask).elim
  | @deny t i l k m offers f here ask phase offer closed =>
    subst here
    cases k with
    | send c v =>
      cases phase
      cases singleton_offer offer
      exact .call t ask (.denied (.inl ⟨v, rfl⟩) closed)
    | receive c =>
      cases phase
      cases singleton_offer offer
      exact .call t ask (.denied (.inr rfl) closed)
    | select es =>
      obtain ⟨rfl, rfl⟩ := select_phase phase
      obtain ⟨e, he, rfl⟩ := select_offer offer
      exact .call t ask (.selectDenied i he (by simpa [Entry.offer] using closed))
    | close c => cases phase
    | nonBlockingSend | nonBlockingReceive => exact (hplain t _ _ ask).elim
  | @refuse t l k offers here ask phase held =>
    subst here
    cases k with
    | send | receive | close => cases phase
    | select es => cases (select_phase phase).1
    | nonBlockingSend | nonBlockingReceive => exact (hplain t _ _ ask).elim
  | @error t l k r here ask phase =>
    subst here
    cases k with
    | select es =>
      simp only [Call.phase] at phase
      split at phase
      · rename_i hnil
        subst hnil
        cases phase
        exact .call t ask .selectNothing
      · cases phase
    | _ => cases phase
  | @closeAgain t l k c here ask phase closed =>
    subst here
    cases k with
    | close c => cases phase; exact .call t ask (.closeAgain c closed)
    | select es =>
      simp only [Call.phase] at phase
      split at phase <;> cases phase
    | _ => cases phase
  | @close t l k c here ask phase isOpen =>
    subst here
    cases k with
    | close c => cases phase; exact .call t ask (.close c isOpen)
    | select es =>
      simp only [Call.phase] at phase
      split at phase <;> cases phase
    | _ => cases phase
  | move t here ask moved =>
    subst here
    exact .move t ask moved

theorem take_room {queue : χ → List α} {c : χ} {v : α} (h : (queue c).length < size c) :
    (Offer.send c v).take size queue =
      some (v, Function.update queue c (queue c ++ [v])) := if_pos h

theorem take_head {queue : χ → List α} {c : χ} {v : α} {rest : List α} (h : queue c = v :: rest) :
    (Offer.receive c).take size queue = some (v, Function.update queue c rest) := by
  simp only [Offer.take, h]

theorem took_turn (h : Took P size w w') : Turn P size w w' := by
  cases h with
  | move t ask moved => exact .move t rfl ask moved
  | @call t k r queue closed ask effect =>
    cases effect with
    | send c v room => exact .take t 0 rfl ask rfl rfl (.inr rfl) (take_room room)
    | receive c head => exact .take t 0 rfl ask rfl rfl (.inr rfl) (take_head head)
    | denied call shut =>
      rcases call with ⟨v, rfl⟩ | rfl
      · exact .deny t 0 rfl ask rfl rfl shut
      · exact .deny t 0 rfl ask rfl rfl shut
    | @selectSend es e i entry dir isOpen room =>
      have hoffer : (es.map Entry.offer)[i]? = some (.send e.channel e.data) := by
        rw [entry_offer entry, Entry.offer, dir]
        rfl
      exact .take t i rfl ask (entry_phase entry) hoffer (.inl isOpen)
        (take_room room)
    | @selectReceive es e v rest i entry dir isOpen head =>
      have hoffer : (es.map Entry.offer)[i]? = some (.receive e.channel) := by
        rw [entry_offer entry, Entry.offer, dir]
        rfl
      exact .take t i rfl ask (entry_phase entry) hoffer (.inl isOpen)
        (take_head head)
    | @selectDenied es e i entry shut =>
      exact .deny t i rfl ask (entry_phase entry) (entry_offer entry)
        (by simpa [Entry.offer] using shut)
    | selectNothing => exact .error t rfl ask rfl
    | close c isOpen => exact .close t rfl ask rfl isOpen
    | closeAgain c shut => exact .closeAgain t rfl ask rfl shut

theorem reached_always {I : World μ τ ν χ α → Prop} (hplain : ∀ t l k, P.ask t l = some k → k.plain)
    (base : ∀ w, (∀ c, w.queue c = []) → (∀ c, w.closed c = false) → P.init w.thread w.memory → I w)
    (ind : ∀ w w', I w → Took P size w w' → I w') (h : Reached P size w) : I w := by
  induction h with
  | start queue closed init => exact base _ queue closed init
  | turn _ turn ih => exact ind _ _ ih (turn_took hplain turn)

end

end OperatingSystems.Concurrency
