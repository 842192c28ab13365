import OperatingSystems.Stress.RouterStep

namespace OperatingSystems.Stress
open Concurrency

variable {n : Nat} {topology : Topology n} {i j : Fin n} {m m' : Memory n} {r r' : Router n}
  {queue queue' : Chan n → List (Message n)} {closed : Chan n → Bool}

structure Loose (topology : Topology n) (i : Fin n) (m : Memory n) (r : Router n) : Prop where
  shaped : Shaped topology i r
  curr : r.curr = Fin.ofNat 4 (r.cycles + 2)
  next : r.next = r.curr + 1
  prevPrev : r.prevPrev = r.curr + 2
  prev : r.prev = r.curr + 3
  src : ∀ s, (m.vector ⟨i, s⟩).src = i
  epoch : ∀ s, Fin.ofNat 4 (m.vector ⟨i, s⟩).epoch = s
  fresh : r.changed = false → (m.vector ⟨i, r.next⟩).dist = (m.vector ⟨i, r.curr⟩).dist
  answered : ∀ a ∈ r.replies, a.1 ≤ r.cycles ∧
    (a.2 = true → r.cycles = a.1 → r.selectCount = 2 ∧ r.pc.cycling = false)
  sorted : r.replies.Pairwise fun a b => a.1 ≤ b.1

structure Stated (topology : Topology n) (i : Fin n) (m : Memory n) (r : Router n) : Prop
    extends Loose topology i m r where
  rest : r.pc = .select ∨ r.pc = .reply → r.selectCount = 2 → r.changed = false
  cycling : r.pc.cycling = true → r.selectCount = 2 ∧ r.changed = true
  copying : ∀ k, r.pc = .copy k → ∀ d < k,
    (m.vector ⟨i, r.next⟩).dist d = (m.vector ⟨i, r.curr⟩).dist d

theorem settle_cases (r : Router n) : (r.selectCount = 2 ∧ r.changed = true ∧ r.settle =
      { r with
        prevPrev := r.prev
        prev := r.curr
        curr := r.next
        next := r.prevPrev
        cycles := r.cycles + 1
        pc := .cycle }) ∨
    (¬ (r.selectCount = 2 ∧ r.changed = true) ∧ r.settle = { r with pc := .select }) := by
  unfold Router.settle
  split
  · rename_i h
    exact .inl ⟨h.1, h.2, rfl⟩
  · rename_i h
    exact .inr ⟨h, rfl⟩

theorem ofNat_succ (e : Nat) : Fin.ofNat 4 (e + 1) = Fin.ofNat 4 e + 1 := by
  ext
  simp only [Fin.ofNat_eq_cast, Fin.val_add, Fin.val_natCast, Fin.val_one]
  omega

theorem turned : ∀ c : Fin 4, c + 2 = c + 1 + 1 ∧ c + 3 = c + 1 + 2 ∧ c = c + 1 + 3 := by decide

theorem settle_stated (h : Loose topology i m r) (pc : r.pc.cycling = false) :
    Stated topology i m r.settle := by
  rcases settle_cases r with ⟨hcount, hchanged, hs⟩ | ⟨hno, hs⟩
  · rw [hs]
    refine ⟨⟨h.shaped.keep rfl rfl (by simp [RouterPc.cycling]), ?_, ?_, ?_, ?_, h.src, h.epoch,
      by simp [hchanged], fun a ha => ?_, h.sorted⟩, by simp, by simp [hcount, hchanged], by simp⟩
    · rw [show r.cycles + 1 + 2 = r.cycles + 2 + 1 from rfl, ofNat_succ, ← h.curr]
      exact h.next
    · change r.prevPrev = r.next + 1
      rw [h.next, h.prevPrev]
      exact (turned r.curr).1
    · change r.prev = r.next + 2
      rw [h.next, h.prev]
      exact (turned r.curr).2.1
    · change r.curr = r.next + 3
      rw [h.next]
      exact (turned r.curr).2.2
    · obtain ⟨hle, -⟩ := h.answered a ha
      refine ⟨Nat.le_succ_of_le hle, fun _ he => ?_⟩
      have he : r.cycles + 1 = a.1 := he
      omega
  · rw [hs]
    refine ⟨⟨h.shaped.keep rfl rfl fun _ => ⟨rfl, pc⟩, h.curr, h.next, h.prevPrev, h.prev, h.src,
      h.epoch, h.fresh, fun a ha => ?_, h.sorted⟩, ?_, by simp [RouterPc.cycling], by simp⟩
    · obtain ⟨hle, hidle⟩ := h.answered a ha
      exact ⟨hle, fun hb he => ⟨(hidle hb he).1, rfl⟩⟩
    · intro _ hcount
      by_contra hchanged
      exact hno ⟨hcount, by simpa using hchanged⟩

theorem after_cases (i : Fin n) : (∃ i', after i = some i' ∧ (i' : Nat) = i + 1) ∨
    (after i = none ∧ (i : Nat) + 1 = n) := by
  have hi := i.isLt
  unfold after
  split
  · exact .inl ⟨_, rfl, rfl⟩
  · exact .inr ⟨rfl, by omega⟩

theorem relaxed_cases (r : Router n) (p : VectorPtr n) (d : Nat) (k : Fin n) :
    (∃ k' : Fin n, (k' : Nat) = k + 1 ∧ r.relaxed p d k = { r with pc := .load p d k' }) ∨
      ((k : Nat) + 1 = n ∧ r.relaxed p d k = r.settle) := by
  unfold Router.relaxed
  rcases after_cases k with ⟨k', hk, hv⟩ | ⟨hk, hv⟩
  · rw [hk]
    exact .inl ⟨k', hv, rfl⟩
  · rw [hk]
    exact .inr ⟨hv, rfl⟩

theorem copied_cases (topology : Topology n) (i : Fin n) (r : Router n) (k : Fin n) :
    (∃ k' : Fin n, (k' : Nat) = k + 1 ∧ r.copied topology i k = { r with pc := .copy k' }) ∨
      ((k : Nat) + 1 = n ∧ r.copied topology i k = r.reset topology i) := by
  unfold Router.copied
  rcases after_cases k with ⟨k', hk, hv⟩ | ⟨hk, hv⟩
  · rw [hk]
    exact .inl ⟨k', hv, rfl⟩
  · rw [hk]
    exact .inr ⟨hv, rfl⟩

theorem Loose.goes (h : Loose topology i m r) {pc : RouterPc n}
    (cycling : r.pc.cycling = pc.cycling) : Loose topology i m { r with pc := pc } := by
  refine ⟨h.shaped.keep rfl rfl fun hc => ⟨rfl, cycling.trans hc⟩, h.curr, h.next, h.prevPrev,
    h.prev, h.src, h.epoch, h.fresh, fun a ha => ?_, h.sorted⟩
  obtain ⟨hle, hidle⟩ := h.answered a ha
  exact ⟨hle, fun hb he => ⟨(hidle hb he).1, cycling ▸ (hidle hb he).2⟩⟩

theorem Loose.stated (h : Loose topology i m r) (pc : r.pc.cycling = false)
    (select : r.pc ≠ .select) (reply : r.pc ≠ .reply) : Stated topology i m r := by
  refine ⟨h, fun hpc => ?_, by simp [pc], ?_⟩
  · rcases hpc with hpc | hpc
    · exact absurd hpc select
    · exact absurd hpc reply
  · intro k hk
    rw [hk] at pc
    cases pc

theorem relaxed_stated (h : Loose topology i m r) (pc : r.pc.cycling = false) (p : VectorPtr n)
    (d : Nat) (k : Fin n) : Stated topology i m (r.relaxed p d k) := by
  rcases relaxed_cases r p d k with ⟨k', -, hr⟩ | ⟨-, hr⟩
  · rw [hr]
    exact (h.goes (by rw [pc]; rfl)).stated rfl (by simp) (by simp)
  · rw [hr]
    exact settle_stated h pc

theorem step_writes (h : RouterStep topology i queue closed m r queue' m' r') {p : VectorPtr n}
    (hp : p ≠ ⟨i, r.next⟩) : m'.vector p = m.vector p := by
  cases h with
  | improve | cycle | copy => simp [hp]
  | _ => rfl

theorem copy_loose (h : Loose topology i m r) (dist : Fin n → Nat)
    (fresh : r.changed = false → dist = (m.vector ⟨i, r.curr⟩).dist) :
    Loose topology i
      (m.write ⟨i, r.next⟩ { m.vector ⟨i, r.next⟩ with dist := dist }) r := by
  have hne : r.curr ≠ r.next := by
    rw [h.next]
    exact (by decide : ∀ c : Fin 4, c ≠ c + 1) r.curr
  refine ⟨h.shaped, h.curr, h.next, h.prevPrev, h.prev, fun s => ?_, fun s => ?_, fun hc => ?_,
    h.answered, h.sorted⟩
  · by_cases hs : s = r.next
    · subst hs
      simpa using h.src r.next
    · simpa [hs] using h.src s
  · by_cases hs : s = r.next
    · subst hs
      simpa using h.epoch r.next
    · simpa [hs] using h.epoch s
  · simpa [hne] using fresh hc

theorem sent_loose (h : Stated topology i m r) {x : Nat} (hx : 2 ≤ x)
    (count : x < r.selectCount) : Loose topology i m (r.sent x) := by
  refine ⟨sent_shaped h.shaped hx count, h.curr, h.next, h.prevPrev, h.prev, h.src, h.epoch,
    h.fresh, fun a ha => ?_, h.sorted⟩
  obtain ⟨hle, hidle⟩ := h.answered a ha
  refine ⟨hle, fun hb he => absurd (hidle hb he).1 ?_⟩
  omega

theorem converged_iff (r : Router n) : r.converged = true ↔ r.selectCount = 2 ∧ r.changed = false := by
  simp [Router.converged]

theorem replied_stated (h : Stated topology i m r) (pc : r.pc = .reply) :
    Stated topology i m r.replied := by
  have hpc : r.pc.cycling = false := by rw [pc]; rfl
  refine settle_stated ⟨h.shaped.keep rfl rfl fun _ => ⟨rfl, hpc⟩, h.curr, h.next, h.prevPrev,
    h.prev, h.src, h.epoch, h.fresh, fun a ha => ?_, ?_⟩ hpc
  · rcases List.mem_append.mp ha with ha | ha
    · exact h.answered a ha
    · cases List.mem_singleton.mp ha
      exact ⟨Nat.le_refl _, fun hb _ => ⟨((converged_iff r).mp hb).1, hpc⟩⟩
  · refine List.pairwise_append.mpr ⟨h.sorted, List.pairwise_singleton _ _, fun a ha b hb => ?_⟩
    cases List.mem_singleton.mp hb
    exact (h.answered a ha).1

theorem copied_stated (h : Stated topology i m r) {k : Fin n} (pc : r.pc = .copy k) :
    Stated topology i
      (m.write ⟨i, r.next⟩ { m.vector ⟨i, r.next⟩ with
        dist := Function.update (m.vector ⟨i, r.next⟩).dist k ((m.vector ⟨i, r.curr⟩).dist k) })
      (r.copied topology i k) := by
  have hcycling := h.cycling (by rw [pc]; rfl)
  have hloose := copy_loose h.toLoose
    (Function.update (m.vector ⟨i, r.next⟩).dist k ((m.vector ⟨i, r.curr⟩).dist k))
    (by simp [hcycling.2])
  have hne : r.curr ≠ r.next := by
    rw [h.next]
    exact (by decide : ∀ c : Fin 4, c ≠ c + 1) r.curr
  have hcopied (d : Fin n) (hd : (d : Nat) < k + 1) :
      Function.update (m.vector ⟨i, r.next⟩).dist k ((m.vector ⟨i, r.curr⟩).dist k) d =
        (m.vector ⟨i, r.curr⟩).dist d := by
    by_cases hdk : d = k
    · subst hdk
      simp
    · rw [Function.update_of_ne hdk]
      exact h.copying k pc d (Fin.lt_def.mpr (by omega))
  rcases copied_cases topology i r k with ⟨k', hk', hr⟩ | ⟨hn, hr⟩
  · rw [hr]
    refine ⟨hloose.goes (by rw [pc]; rfl), by simp, fun _ => hcycling, fun k'' hk'' d hd => ?_⟩
    cases hk''
    simpa [hne] using hcopied d (by have := Fin.lt_def.mp hd; omega)
  · rw [hr]
    refine ⟨⟨reset_shaped hloose.shaped, h.curr, h.next, h.prevPrev, h.prev, hloose.src,
      hloose.epoch, fun _ => ?_, fun a ha => ?_, h.sorted⟩, fun _ _ => rfl, by simp [Router.reset,
        RouterPc.cycling], by simp [Router.reset]⟩
    · funext d
      simpa [Router.reset, hne] using hcopied d (by have := d.isLt; omega)
    · obtain ⟨hle, hidle⟩ := h.answered a ha
      refine ⟨hle, fun hb he => absurd (hidle hb he).2 ?_⟩
      rw [pc]
      simp [RouterPc.cycling]

theorem cycle_stated (h : Stated topology i m r) (pc : r.pc = .cycle) :
    Stated topology i
      (m.write ⟨i, r.next⟩ { m.vector ⟨i, r.next⟩ with
        epoch := (m.vector ⟨i, r.curr⟩).epoch + 1 })
      { r with pc := .copy ⟨0, i.pos⟩ } := by
  have hcycling := h.cycling (by rw [pc]; rfl)
  refine ⟨⟨h.shaped.keep rfl rfl (by simp [RouterPc.cycling]), h.curr, h.next, h.prevPrev, h.prev,
    fun s => ?_, fun s => ?_, by simp [hcycling.2], fun a ha => ?_, h.sorted⟩, by simp,
    fun _ => hcycling, fun k hk d hd => ?_⟩
  · by_cases hs : s = r.next
    · subst hs
      simpa using h.src r.next
    · simpa [hs] using h.src s
  · by_cases hs : s = r.next
    · subst hs
      simp only [Memory.write_vector, Function.update_self]
      rw [ofNat_succ, h.epoch, h.next]
    · simpa [hs] using h.epoch s
  · obtain ⟨hle, hidle⟩ := h.answered a ha
    refine ⟨hle, fun hb he => absurd (hidle hb he).2 ?_⟩
    rw [pc]
    simp [RouterPc.cycling]
  · cases hk
    exact absurd (Fin.lt_def.mp hd) (Nat.not_lt_zero _)

theorem fault_cycling (h : RouterFault topology i closed m r) : r.pc.cycling = false := by
  cases h with
  | done pc | node _ pc | completed pc | infinite _ pc => rw [pc]; rfl
  | freed p hand =>
    generalize r.pc = pc at hand
    cases pc <;> first | rfl | cases hand

theorem step_stated (h : Stated topology i m r)
    (step : RouterStep topology i queue closed m r queue' m' r') : Stated topology i m' r' := by
  cases step with
  | send x j pc two_le count channel empty =>
    exact settle_stated (sent_loose h two_le count) (by simp [Router.sent, pc, RouterPc.cycling])
  | vector p pc head => exact (h.goes (by rw [pc]; rfl)).stated rfl (by simp) (by simp)
  | null pc head =>
    refine ⟨h.goes (by rw [pc]; rfl), fun _ => h.rest (.inl pc), by simp [RouterPc.cycling],
      by simp⟩
  | report pc empty => exact replied_stated h pc
  | leave pc shut same => exact (h.goes (by rw [pc]; rfl)).stated rfl (by simp) (by simp)
  | source p pc alive finite => exact (h.goes (by rw [pc]; rfl)).stated rfl (by simp) (by simp)
  | load p d k pc alive => exact (h.goes (by rw [pc]; rfl)).stated rfl (by simp) (by simp)
  | improve p d k x pc less =>
    have hloose : Loose topology i m { r with changed := true } :=
      ⟨h.shaped.keep rfl rfl fun hc => ⟨rfl, hc⟩, h.curr, h.next, h.prevPrev, h.prev, h.src,
        h.epoch, by simp, h.answered, h.sorted⟩
    exact relaxed_stated (copy_loose hloose _ (by simp)) (by simp [pc, RouterPc.cycling]) p d k
  | keep p d k x pc least => exact relaxed_stated h.toLoose (by rw [pc]; rfl) p d k
  | cycle pc => exact cycle_stated h pc
  | copy k pc => exact copied_stated h pc
  | free pc =>
    have hgoes : Stated topology i m { r with pc := .exited } :=
      (h.goes (by rw [pc]; rfl)).stated rfl (by simp) (by simp)
    exact ⟨⟨hgoes.shaped, hgoes.curr, hgoes.next, hgoes.prevPrev, hgoes.prev, hgoes.src,
      hgoes.epoch, hgoes.fresh, hgoes.answered, hgoes.sorted⟩, hgoes.rest, hgoes.cycling,
      hgoes.copying⟩
  | fail fault =>
    exact (h.goes (by rw [fault_cycling fault]; rfl)).stated rfl (by simp) (by simp)

theorem Stated.memory (h : Stated topology i m r)
    (same : ∀ s, m'.vector ⟨i, s⟩ = m.vector ⟨i, s⟩) : Stated topology i m' r := by
  refine ⟨⟨h.shaped, h.curr, h.next, h.prevPrev, h.prev, ?_, ?_, ?_, h.answered, h.sorted⟩, h.rest,
    h.cycling, ?_⟩
  · simpa only [same] using h.src
  · simpa only [same] using h.epoch
  · simpa only [same] using h.fresh
  · simpa only [same] using h.copying

theorem start_stated (topology : Topology n) (i : Fin n) :
    Stated topology i (Memory.start topology) (Router.start topology i) :=
  ⟨⟨start_shaped topology i, rfl, rfl, (by decide : (0 : Fin 4) = 2 + 2),
    (by decide : (1 : Fin 4) = 2 + 3), fun _ => rfl, fun s => by simp [Memory.start],
    fun _ => rfl, by simp [Router.start], by simp [Router.start]⟩, fun _ _ => rfl,
    by simp [Router.start, RouterPc.cycling], by simp [Router.start]⟩

end OperatingSystems.Stress
