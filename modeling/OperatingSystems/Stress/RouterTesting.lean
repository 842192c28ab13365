import OperatingSystems.Stress.RouterRounds

namespace OperatingSystems.Stress
open Concurrency

variable {n : Nat} {topology : Topology n} {i j k : Fin n} {m m' : Memory n} {r r' : Router n}
  {queue queue' : Chan n → List (Message n)} {closed closed' : Chan n → Bool}
  {router : Fin n → Router n} {l l' : Main n} {s : Stage n}

structure Calm (queue : Chan n → List (Message n)) (router : Fin n → Router n) (rounds : Nat) :
    Prop where
  unmoved : ∀ j c b, (router j).replies[rounds - 1]? = some (c, b) → (router j).cycles = c
  answered : ∀ j, (router j).replies.length = rounds + 1 ∨ (router j).pc = .reply →
    (router j).pc.hand = none ∧ (router j).changed = false ∧ ∀ p, queue (.node j) ≠ [some p]

def Tainted (router : Fin n → Router n) (rounds : Nat) : Prop :=
  ∃ j c, (router j).replies[rounds - 1]? = some (c, true) ∧
    ((∃ c' b, (router j).replies[rounds]? = some (c', b) ∧ c' ≠ c) ∨
      (router j).replies.length = rounds ∧ c < (router j).cycles)

theorem settle_cycles (r : Router n) : r.cycles ≤ r.settle.cycles := by
  rcases settle_cases r with ⟨-, -, hr⟩ | ⟨-, hr⟩ <;> rw [hr]
  exact Nat.le_succ _

theorem relaxed_cycles (r : Router n) (p : VectorPtr n) (x : Nat) (k : Fin n) :
    r.cycles ≤ (r.relaxed p x k).cycles := by
  rcases relaxed_cases r p x k with ⟨k', -, hr⟩ | ⟨-, hr⟩ <;> rw [hr]
  exact settle_cycles r

theorem step_cycles (step : RouterStep topology i queue closed m r queue' m' r') :
    r.cycles ≤ r'.cycles := by
  cases step with
  | send x j pc two_le count channel empty => exact settle_cycles (r.sent x)
  | report pc empty =>
    exact settle_cycles { r with replies := r.replies ++ [(r.cycles, r.converged)] }
  | improve p x k y pc less => exact relaxed_cycles { r with changed := true } p x k
  | keep p x k y pc least => exact relaxed_cycles r p x k
  | copy k pc =>
    rcases copied_cases topology i r k with ⟨k', -, hr⟩ | ⟨-, hr⟩ <;> rw [hr]
    exact le_rfl
  | _ => exact le_rfl

theorem step_prior (step : RouterStep topology i queue closed m (router i) queue' m' r')
    (j : Fin n) {x : Nat} {a : Nat × Bool} (h : (router j).replies[x]? = some a) :
    (Function.update router i r' j).replies[x]? = some a := by
  by_cases hj : j = i
  · subst hj
    rw [Function.update_self]
    rcases step_replies step with ⟨hr, -⟩ | ⟨-, hr, -⟩
    · rw [hr, h]
    · rw [hr, replied_replies, List.getElem?_append_left (List.getElem?_eq_some_iff.mp h).1, h]
  · rw [Function.update_of_ne hj, h]

theorem step_tainted (h : Tainted router l.rounds)
    (step : RouterStep topology i queue closed m (router i) queue' m' r') :
    Tainted (Function.update router i r') l.rounds := by
  obtain ⟨j, c, hc, hlate | ⟨hlen, hlt⟩⟩ := h
  · obtain ⟨c', b, hc', hne⟩ := hlate
    exact ⟨j, c, step_prior step j hc, .inl ⟨c', b, step_prior step j hc', hne⟩⟩
  · refine ⟨j, c, step_prior step j hc, ?_⟩
    by_cases hj : j = i
    · subst hj
      rw [Function.update_self]
      rcases step_replies step with ⟨hr, -⟩ | ⟨-, hr, -⟩
      · exact .inr ⟨by rw [hr, hlen], hlt.trans_le (step_cycles step)⟩
      · refine .inl ⟨(router j).cycles, (router j).converged, ?_, Nat.ne_of_gt hlt⟩
        rw [hr, replied_replies, ← hlen, List.getElem?_concat_length]
    · rw [Function.update_of_ne hj]
      exact .inr ⟨hlen, hlt⟩

theorem calm_keeps (h : Calm queue router l.rounds) (cycles : r'.cycles = (router i).cycles)
    (prior : ∀ a, r'.replies[l.rounds - 1]? = some a → (router i).replies[l.rounds - 1]? = some a)
    (answered : r'.replies.length = l.rounds + 1 ∨ r'.pc = .reply →
      r'.pc.hand = none ∧ r'.changed = false ∧ ∀ p, queue' (.node i) ≠ [some p])
    (others : ∀ j, j ≠ i → queue' (.node j) = queue (.node j)) :
    Calm queue' (Function.update router i r') l.rounds := by
  refine ⟨fun j c b hj => ?_, fun j hj => ?_⟩
  · by_cases hji : j = i
    · subst hji
      rw [Function.update_self] at hj ⊢
      rw [cycles]
      exact h.unmoved j c b (prior _ hj)
    · rw [Function.update_of_ne hji] at hj ⊢
      exact h.unmoved j c b hj
  · by_cases hji : j = i
    · subst hji
      rw [Function.update_self] at hj ⊢
      exact answered hj
    · rw [Function.update_of_ne hji] at hj ⊢
      rw [others j hji]
      exact h.answered j hj

theorem step_calm (h : Round queue router l s) (second : s.second = true)
    (hcalm : Calm queue router l.rounds) (hs : Stated topology i m (router i))
    (step : RouterStep topology i queue closed m (router i) queue' m' r')
    (alive : r'.pc ≠ .failed) :
    Calm queue' (Function.update router i r') l.rounds ∨
      Tainted (Function.update router i r') l.rounds := by
  obtain ⟨hrounds, hall⟩ := h.first second
  obtain ⟨c, hc, -⟩ := hall i
  have hcycles : (router i).cycles = c := hcalm.unmoved i c true hc
  have hidle := ((hs.answered _ (List.mem_of_getElem? hc)).2 rfl hcycles)
  have hanswered := hcalm.answered i
  have reading {p : VectorPtr n} (hand : (router i).pc.hand = some p) :
      (router i).replies.length ≠ l.rounds + 1 := by
    intro hlen
    rw [(hanswered (.inl hlen)).1] at hand
    cases hand
  have goesOn {pc : RouterPc n} (hpc : pc ≠ .reply)
      (hand : (router i).replies.length = l.rounds + 1 → pc.hand = none) :
      Calm queue (Function.update router i { router i with pc := pc }) l.rounds := by
    refine calm_keeps hcalm rfl (fun _ => id) (fun ha => ?_) fun _ _ => rfl
    have hlen := ha.resolve_right hpc
    exact ⟨hand hlen, (hanswered (.inl hlen)).2⟩
  have compared (r₁ : Router n) {p : VectorPtr n} {x : Nat} {k : Fin n}
      (hand : (router i).pc.hand = some p) (hr₁ : r₁.cycles = (router i).cycles)
      (hreplies : r₁.replies = (router i).replies) (hr' : r' = r₁.relaxed p x k)
      (hq : queue' = queue) : Calm queue' (Function.update router i r') l.rounds ∨
        Tainted (Function.update router i r') l.rounds := by
    have hlen : r'.replies.length ≠ l.rounds + 1 := by
      rw [hr', relaxed_replies, hreplies]
      exact reading hand
    have hsame {pc : RouterPc n} (hpc : pc ≠ .reply) (hr : r' = { r₁ with pc := pc }) :
        Calm queue' (Function.update router i r') l.rounds := by
      refine calm_keeps hcalm (by rw [hr]; exact hr₁) (fun a ha => ?_) (fun ha => ?_) fun _ _ => by
        rw [hq]
      · rw [hr] at ha
        rwa [← hreplies]
      · have ha := ha.resolve_left hlen
        rw [hr] at ha
        exact absurd ha hpc
    rcases relaxed_cases r₁ p x k with ⟨k', -, hr⟩ | ⟨-, hr⟩
    · exact .inl (hsame (by simp) (hr'.trans hr))
    · rcases settle_cases r₁ with ⟨-, -, hturn⟩ | ⟨-, hturn⟩
      · refine .inr ⟨i, c, step_prior step i hc, .inr ⟨?_, ?_⟩⟩
        · rw [Function.update_self]
          have hold := (h.old i)
          have htoken := h.token i
          have := Bool.toNat_le (s.asked i)
          rw [Router.nulls] at htoken
          have hlen' : r'.replies.length = (router i).replies.length := by
            rw [hr', relaxed_replies, hreplies]
          omega
        · rw [Function.update_self, hr', hr, hturn]
          have : r₁.cycles + 1 = c + 1 := by rw [hr₁, hcycles]
          exact this ▸ Nat.lt_succ_self c
      · exact .inl (hsame (by simp) ((hr'.trans hr).trans hturn))
  cases step with
  | send x j pc two_le count channel empty => omega
  | vector p pc head =>
    refine .inl (calm_keeps hcalm rfl (fun _ => id) (fun ha => ?_) fun j hj => by simp [hj])
    exact absurd head ((hanswered (.inl (ha.resolve_right (by simp)))).2.2 p)
  | null pc head =>
    refine .inl (calm_keeps hcalm rfl (fun _ => id) (fun _ => ?_) fun j hj => by simp [hj])
    exact ⟨rfl, hs.rest (.inl pc) hidle.1, by simp⟩
  | report pc empty =>
    have hchanged := hs.rest (.inr pc) hidle.1
    have hsettle : (router i).replied = { router i with
        replies := (router i).replies ++ [((router i).cycles, (router i).converged)]
        pc := .select } := by
      rw [Router.replied, Router.settle, if_neg (by simp [hchanged])]
    refine .inl (calm_keeps hcalm (by rw [hsettle]) (fun a ha => ?_) (fun _ => ?_) fun j _ => by simp)
    · have hlt : l.rounds - 1 < (router i).replies.length := (List.getElem?_eq_some_iff.mp hc).1
      rwa [hsettle, List.getElem?_append_left hlt] at ha
    · rw [hsettle]
      exact ⟨rfl, hchanged, by simpa using (hanswered (.inr pc)).2.2⟩
  | leave pc shut same => exact .inl (goesOn (by simp) fun _ => rfl)
  | source p pc alive finite =>
    exact .inl (goesOn (by simp) fun hlen =>
      absurd hlen (reading (by rw [pc]; rfl)))
  | load p x k pc alive =>
    exact .inl (goesOn (by simp) fun hlen =>
      absurd hlen (reading (by rw [pc]; rfl)))
  | improve p x k y pc less => exact compared { router i with changed := true } (by rw [pc]; rfl) rfl rfl rfl rfl
  | keep p x k y pc least => exact compared (router i) (by rw [pc]; rfl) rfl rfl rfl rfl
  | cycle pc =>
    rw [pc] at hidle
    cases hidle.2
  | copy k pc =>
    rw [pc] at hidle
    cases hidle.2
  | free pc => exact .inl (goesOn (by simp) fun _ => rfl)
  | fail fault => exact absurd rfl alive

theorem Round.goes (h : Round queue router l s) (pc : MainPc n) :
    Round queue router { l with pc := pc } s :=
  ⟨h.token, h.old, h.counted, h.genuine, h.refused, h.noted, h.first, h.compared⟩

structure Accepted (queue : Chan n → List (Message n)) (router : Fin n → Router n) (l : Main n) :
    Prop where
  answers : ∀ j, ∃ c₁ c, (router j).replies[l.rounds - 1]? = some (c₁, true) ∧
    (router j).replies[l.rounds]? = some (c, true) ∧ slotOf c₁ = slotOf c ∧
      l.completed j = some ⟨j, slotOf c₁⟩
  length : ∀ j, (router j).replies.length = l.rounds + 1
  rounds : 1 ≤ l.rounds
  empty : queue .completed = []
  quiet : ∀ j, (queue (.node j)).count none = 0 ∧ (router j).pc ≠ .reply
  calm : Calm queue router l.rounds ∨ Tainted router l.rounds

def Tested (queue : Chan n → List (Message n)) (router : Fin n → Router n) (l : Main n) : Prop :=
  ∃ s, l.pc.stage = some s ∧ Round queue router l s ∧
    (s.second = true → Calm queue router l.rounds ∨ Tainted router l.rounds)

theorem all_answered {second : Bool} {taken : Nat}
    (h : Round queue router l ⟨second, fun _ => true, taken, none⟩) (hn : taken = n) :
    queue .completed = [] ∧ ∀ j, (router j).replies.length = l.rounds + 1 := by
  have hle := Finset.card_le_univ (answerers router l.rounds)
  have hcounted := h.counted
  rw [Fintype.card_fin] at hle
  have hcard : (answerers router l.rounds).card = n := by
    simp only at hcounted
    omega
  refine ⟨List.length_eq_zero_iff.mp (by simp only at hcounted; omega), fun j => ?_⟩
  have huniv : answerers router l.rounds = Finset.univ :=
    (Finset.card_eq_iff_eq_univ _).mp (by rw [hcard, Fintype.card_fin])
  have hj : j ∈ answerers router l.rounds := huniv ▸ Finset.mem_univ j
  simpa [answerers] using hj

theorem next_round {second : Bool} (h : Round queue router l ⟨second, fun _ => true, n, none⟩)
    (second' : Bool) (valid : Bool) (completed : Fin n → Message n) (pc : MainPc n)
    (first : second' = true → ∀ j, ∃ c,
      (router j).replies[l.rounds]? = some (c, true) ∧ completed j = some ⟨j, slotOf c⟩) :
    Round queue router ⟨pc, valid, completed, l.rounds + 1⟩
      ⟨second', fun _ => false, 0, none⟩ := by
  obtain ⟨hempty, hlength⟩ := all_answered h rfl
  have hnone (j : Fin n) : (router j).replies[l.rounds + 1]? = none := by simp [hlength]
  refine ⟨fun j => ?_, fun j => (hlength j).ge, ?_, by simp [hempty], by simp [hnone], by simp [hnone],
    fun hs => ⟨Nat.le_add_left 1 _, by simpa using first hs⟩, by simp [hnone]⟩
  · have htoken := h.token j
    simp only [Bool.toNat_true] at htoken
    simp [htoken]
  · have hcard : answerers router (l.rounds + 1) = ∅ := by
      simp [answerers, hlength]
    simp [hcard, hempty]

theorem next_calm {second : Bool} (h : Round queue router l ⟨second, fun _ => true, n, none⟩)
    (first : ∀ j, ∃ c, (router j).replies[l.rounds]? = some (c, true))
    (answered : ∀ j a, a ∈ (router j).replies → a.1 ≤ (router j).cycles) :
    Calm queue router (l.rounds + 1) ∨ Tainted router (l.rounds + 1) := by
  obtain ⟨-, hlength⟩ := all_answered h rfl
  by_cases hmoved : ∃ j c, (router j).replies[l.rounds]? = some (c, true) ∧ c < (router j).cycles
  · obtain ⟨j, c, hc, hlt⟩ := hmoved
    exact .inr ⟨j, c, by simpa using hc, .inr ⟨hlength j, hlt⟩⟩
  · refine .inl ⟨fun j c b hj => ?_, fun j hj => ?_⟩
    · obtain ⟨c', hc'⟩ := first j
      rw [Nat.add_sub_cancel, hc'] at hj
      cases hj
      refine Nat.le_antisymm (Nat.le_of_not_lt fun hlt => hmoved ⟨j, _, hc', hlt⟩) ?_
      exact answered j _ (List.mem_of_getElem? hc')
    · have htoken := h.token j
      simp only [Bool.toNat_true, Router.nulls, hlength j] at htoken
      rcases hj with hj | hj
      · rw [hlength j] at hj
        omega
      · rw [if_pos hj] at htoken
        omega

variable [NeZero n]

theorem gathered_tested {second : Bool}
    (h : Round queue router l ⟨second, fun _ => true, i + 1, none⟩)
    (hcalm : second = true → Calm queue router l.rounds ∨ Tainted router l.rounds)
    (answered : ∀ j a, a ∈ (router j).replies → a.1 ≤ (router j).cycles) :
    (Tested queue router (l.gathered second i) ∧
      ∃ second' i', (l.gathered second i).pc = .gather second' i' ∨
        (l.gathered second i).pc = .flush second' i') ∨
    (l.gathered second i = { l with pc := .check 0 0 } ∧ Accepted queue router l) := by
  unfold Main.gathered
  rcases after_cases i with ⟨i', hafter, hi'⟩ | ⟨hafter, hn⟩
  · rw [hafter]
    refine .inl ⟨⟨_, rfl, ?_, hcalm⟩, second, i', .inl rfl⟩
    have hround := h.goes (.gather second i')
    rw [← hi'] at hround
    exact hround
  rw [hafter]
  dsimp only
  rw [hn] at h
  obtain ⟨hempty, hlength⟩ := all_answered h rfl
  have answer (hvalid : l.valid = true) (j : Fin n) :
      ∃ c, (router j).replies[l.rounds]? = some (c, true) := by
    obtain ⟨⟨c, b⟩, hc⟩ : ∃ a, (router j).replies[l.rounds]? = some a :=
      ⟨_, List.getElem?_eq_getElem (by rw [hlength]; exact Nat.lt_succ_self _)⟩
    cases b with
    | true => exact ⟨c, hc⟩
    | false =>
      rcases h.refused j c hc with hq | hv
      · rw [hempty] at hq
        cases hq
      · rw [hvalid] at hv
        cases hv
  by_cases hvalid : l.valid = true
  · rw [if_pos hvalid]
    cases second with
    | true =>
      refine .inr ⟨rfl, fun j => ?_, hlength, (h.first rfl).1, hempty, fun j => ?_, hcalm rfl⟩
      · obtain ⟨c, hc⟩ := answer hvalid j
        obtain ⟨c₁, hc₁, hcompleted⟩ := (h.first rfl).2 j
        refine ⟨c₁, c, hc₁, hc, ?_, hcompleted⟩
        rcases h.compared rfl hvalid j c c₁ hc hc₁ with hq | hq | hslot
        · rw [hempty] at hq
          cases hq
        · cases hq
        · exact hslot
      · have htoken := h.token j
        simp only [Bool.toNat_true, Router.nulls, hlength j] at htoken
        refine ⟨by omega, fun hpc => ?_⟩
        rw [if_pos hpc] at htoken
        omega
    | false =>
      refine .inl ⟨⟨_, rfl, ?_, fun _ => next_calm h (answer hvalid) answered⟩, true, 0, .inr rfl⟩
      have hround := next_round h true l.valid l.completed (.flush true 0) fun _ j => by
        obtain ⟨c, hc⟩ := answer hvalid j
        refine ⟨c, hc, ?_⟩
        rcases h.noted rfl j c hc with hq | hq | hn
        · rw [hempty] at hq
          cases hq
        · cases hq
        · exact hn
      simpa using hround
  · rw [if_neg hvalid]
    refine .inl ⟨⟨_, rfl, ?_, by simp⟩, false, 0, .inr rfl⟩
    have hround := next_round h false true (fun _ => none) (.flush false 0) (by simp)
    simpa [Main.restart] using hround

end OperatingSystems.Stress
