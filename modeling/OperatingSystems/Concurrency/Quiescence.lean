import Mathlib.Data.Fintype.Pi
import OperatingSystems.Concurrency.ChannelRefinement

namespace OperatingSystems.Concurrency
open Calling Channel Transition

variable {τ χ α : Type}

-- the steps a thread takes by itself: a sleeping thread may wake up, and need not
def Action.due : Action τ χ α → Prop
  | .spurious _ => False
  | _ => True

inductive Halted (s : State τ χ α) (t : τ) : Prop
  | idle (pc : s.pc t = .idle)
  | asleep (o : Op χ) (pc : s.pc t = .enter (.wait .retry) o) (woken : s.woken t = false)
  | unposted (pc : s.pc t = .semWait) (sem : s.sem t = 0)

theorem free_mutex [DecidableEq χ] {size : χ → Nat} {s : State τ χ α} (hb : Buffered size s) (c : χ) : (s.chan c).chanMutex = none := by
  cases hm : (s.chan c).chanMutex with
  | none => rfl
  | some t =>
    have hholds := (hb.sound.shape.held c t).mp hm
    have hfit := hb.sound.shape.fits t
    cases hpc : s.pc t with
    | enter p o =>
      rw [hpc] at hholds hfit
      cases p with
      | recheck => exact absurd hfit.2.2 (hb.sized o.chan)
      | _ => cases hholds
    | publish o =>
      rw [hpc] at hfit
      exact absurd hfit.2 (hb.sized o.chan)
    | _ => simp [hpc, Pc.holds] at hholds

variable [DecidableEq τ] [DecidableEq χ] [Fintype τ] {size : χ → Nat} {s : State τ χ α}

theorem critical_runs {t : τ} {p : Point} {o : Op χ} (hb : Buffered size s)
    (hpc : s.pc t = .enter p o) (hadm : s.admitted t o.chan p) (wake : τ → Bool) :
    s.critical t p o wake ≠ none := by
  have hfit := hb.sound.shape.fits t
  rw [hpc] at hfit
  have hout := move_outcome ((s.chan o.chan).arrive o.dir p) o (s.data t o.index) p
  simp only [State.critical, if_pos hadm]
  generalize ((s.chan o.chan).arrive o.dir p).move o (s.data t o.index) p = m at hout ⊢
  cases outcome_buffered (hb.sized o.chan) (by simpa using hb.sound.shape.kind o.chan) hfit.2 hout
    <;> simp [State.act]

theorem run_halted (hb : Buffered size s) {t : τ} (h : (threads size).ret s t = none)
    (hrun : (threads size).run s (.run t fun _ => true) = none) : Halted s t := by
  have hlegal (c : χ) (k : Cond) : s.legal c k fun _ => true := by
    rintro ⟨u, hu⟩
    exact ⟨u, hu, rfl⟩
  have hfree := free_mutex hb
  cases hpc : s.pc t with
  | idle => exact .idle hpc
  | ret o st => simp [threads, hpc] at h
  | enter p o =>
    simp only [threads, State.step, State.run, hpc, Option.map_eq_none_iff] at hrun
    cases p with
    | lock => exact absurd hrun (critical_runs hb hpc (hfree o.chan) _)
    | recheck =>
      have hfit := hb.sound.shape.fits t
      rw [hpc] at hfit
      exact absurd hfit.2.2 (hb.sized o.chan)
    | wait w =>
      have hfit := hb.sound.shape.fits t
      rw [hpc] at hfit
      cases hw : s.woken t with
      | true => exact absurd hrun (critical_runs hb hpc ⟨hw, hfree o.chan⟩ _)
      | false =>
        cases w with
        | retry => exact .asleep o hpc hw
        | loop => exact absurd hfit.2.2 (hb.sized o.chan)
        | rendezvous | complete => exact absurd hfit.2 (hb.sized o.chan)
  | publish o =>
    have hfit := hb.sound.shape.fits t
    rw [hpc] at hfit
    exact absurd hfit.2 (hb.sized o.chan)
  | semWait =>
    refine .unposted hpc ?_
    by_contra hsem
    simp [threads, State.step, State.run, hpc, Nat.pos_of_ne_zero hsem] at hrun
  | signal o => simp [threads, State.step, State.run, hpc, hlegal] at hrun
  | closeLock c =>
    simp only [threads, State.step, State.run, hpc, State.closeSection, hfree,
      Option.map_eq_none_iff, if_true] at hrun
    split at hrun <;> cases hrun
  | notify o => simp [threads, State.step, State.run, hpc] at hrun
  | closeNotify d c => cases d <;> simp [threads, State.step, State.run, hpc] at hrun
  | closeBroadcast k c => simp [threads, State.step, State.run, hpc] at hrun
  | register i =>
    simp only [threads, State.step, State.run, hpc] at hrun
    split at hrun <;> cases hrun
  | cleanup i o st =>
    simp only [threads, State.step, State.run, hpc] at hrun
    split at hrun <;> cases hrun

section
variable {tr : List (Event (State τ χ α) (Action τ χ α) (Label τ χ α))}
  (h : Run (system size) tr s) (hsize : ∀ c, size c ≠ 0) (hall : ∀ t, Halted s t)
include h hsize hall

theorem asleep_stuck {t : τ} {o : Op χ} (hpc : s.pc t = .enter (.wait .retry) o)
    (hw : s.woken t = false) :
    (s.chan o.chan).stuck o.dir ∧ (s.chan o.chan).closedFlag = false := by
  have hinv : Shape size s ∧ Roused o.chan .retry s ∧ Covered o.chan o.dir s := by
    refine h.always (P := fun s => Shape size s ∧ Roused o.chan .retry s ∧ Covered o.chan o.dir s)
      (fun s hi => ⟨init_shape hi, ?_, ?_⟩) fun s a l s' hs hstep => ?_
    · intro _ t o hpc
      simp [hi.pc t] at hpc
    · rintro _ ⟨t, o, hpc, -⟩
      simp [hi.pc t] at hpc
    · have hstep := stepped_of_step hstep
      exact ⟨stepped_shape hs.1 hstep, stepped_retry_roused hs.1 (hsize _) hs.2.1 hstep,
        stepped_covered hs.1 (hsize _) hs.2.2 hstep⟩
  obtain ⟨-, hroused, hcovered⟩ := hinv
  have hopen : (s.chan o.chan).closedFlag = false := by
    by_contra hno
    obtain ⟨u, hu⟩ := hroused (by simpa using hno) t o hpc rfl hw
    cases hall u with
    | idle hpc' => simp [hpc', Pc.closing] at hu
    | asleep o' hpc' => simp [hpc', Pc.closing] at hu
    | unposted hpc' => simp [hpc', Pc.closing] at hu
  refine ⟨available_eq_zero.mp (Nat.le_zero.mp ?_), hopen⟩
  calc (s.chan o.chan).available o.dir ≤ ∑ u, s.credit o.chan o.dir u :=
        hcovered hopen ⟨t, o, hpc, rfl, rfl, hw⟩
    _ = 0 := Finset.sum_eq_zero fun u _ => ?_
  cases hall u with
  | idle hpc' => simp [State.credit, hpc']
  | asleep o' hpc' hw' => simp [State.credit, hpc', hw']
  | unposted hpc' => simp [State.credit, hpc']

theorem unposted_stuck {t : τ} (hpc : s.pc t = .semWait) (hsem : s.sem t = 0) {e : Entry χ α}
    (he : e ∈ s.entries t) :
    (s.chan e.channel).stuck e.dir ∧ (s.chan e.channel).closedFlag = false := by
  obtain ⟨i, he⟩ := List.mem_iff_getElem?.mp he
  have hnot : ¬ (s.chan e.channel).Ready e.dir := by
    intro hready
    rcases run_noticed h t i e (by rw [hpc]; trivial) he ⟨hsize _, hready⟩ with hpos | ⟨u, hu⟩
    · omega
    · cases hall u with
      | idle hpc' => simp [hpc', Pc.notifying] at hu
      | asleep o hpc' => simp [hpc', Pc.notifying] at hu
      | unposted hpc' => simp [hpc', Pc.notifying] at hu
  obtain ⟨hopen, hstuck⟩ := not_or.mp hnot
  exact ⟨not_not.mp hstuck, by simpa using hopen⟩

end

theorem rests_queues (hsize : ∀ c, size c ≠ 0) (hv : (threads size).Visited s)
    (hrest : (threads size).Rests Action.due s) : (queues size).Rests Commit.due s.queues := by
  obtain ⟨tr, hr⟩ := visited_run hv
  have hb := visited_buffered hsize hv
  have hall : ∀ t, Halted s t := fun t => run_halted hb (hrest.ret t) (hrest.run _ trivial)
  have asking {t : τ} {m : Mode} {waited : Bool} {offers : List (Offer χ α)}
      (hp : s.queues.phase t = .asking m waited offers) :
      m ≠ .nonblocking ∧ ∀ f ∈ offers, s.queues.holdsOff size f := by
    have hp : s.phase t = .asking m waited offers := hp
    cases hall t with
    | idle hpc => simp [State.phase, hpc] at hp
    | asleep o hpc hw =>
      simp only [State.phase, hpc] at hp
      cases hp
      have hfit := hb.sound.shape.fits t
      rw [hpc] at hfit
      have hmode : o.mode = .blocking := hfit.2.1
      obtain ⟨hstuck, hopen⟩ := asleep_stuck hr hsize hall hpc hw
      refine ⟨by simp [hmode], fun f hf => ?_⟩
      obtain ⟨e, he, rfl⟩ := List.mem_map.mp hf
      obtain ⟨hc, hd⟩ := hfit.1.plain (by simp [hmode]) e he
      refine ⟨by simpa [Entry.offer, hc, State.queues] using hopen, ?_⟩
      rw [Entry.offer, hc, hd, hb.stuck _ hstuck]
      rfl
    | unposted hpc hsem =>
      simp only [State.phase, hpc] at hp
      cases hp
      refine ⟨by simp, fun f hf => ?_⟩
      obtain ⟨e, he, rfl⟩ := List.mem_map.mp hf
      obtain ⟨hstuck, hopen⟩ := unposted_stuck hr hsize hall hpc hsem he
      refine ⟨by simpa [Entry.offer, State.queues] using hopen, ?_⟩
      rw [Entry.offer, hb.stuck _ hstuck]
      rfl
  have settled {t : τ} {p : Phase χ α} (hp : s.queues.phase t = p) :
      (∀ c, p ≠ .closing c) ∧ ∀ r, p ≠ .answered r := by
    subst hp
    cases hall t with
    | idle hpc | asleep o hpc | unposted hpc => simp [State.queues, State.phase, hpc]
  refine ⟨fun k hk => Option.eq_none_iff_forall_ne_some.mpr fun q hq => ?_, fun t => ?_⟩
  · cases committed_iff.mp hq with
    | take t i hphase hoffer hopen htaken =>
      have hheld := (asking hphase).2 _ (List.mem_of_getElem? hoffer)
      simp [Queues.holdsOff, htaken] at hheld
    | deny t i hphase hoffer hclosed =>
      have hheld := (asking hphase).2 _ (List.mem_of_getElem? hoffer)
      simp [Queues.holdsOff, hclosed] at hheld
    | refuse t hphase => exact (asking hphase).1 rfl
    | wait t => exact hk
    | closeAgain t hphase => exact (settled hphase).1 _ rfl
    | close t hphase => exact (settled hphase).1 _ rfl
  · simp only [queues]
    split
    · rename_i hp
      exact absurd rfl ((settled hp).2 _)
    · rfl

theorem accepts_queues {t : τ} {k : Call χ α} (h : (threads size).call s t k = none) :
    (queues size).call s.queues t k = none := by
  have hpc : s.pc t ≠ .idle := by
    intro hidle
    simp [threads, State.step, hidle] at h
  simp only [queues, State.queues, State.phase]
  cases hs : s.pc t with
  | idle => exact absurd hs hpc
  | _ => rfl

theorem queues_refine (hsize : ∀ c, size c ≠ 0) :
    Refines (threads size) Action.due (queues size) Commit.due
      fun (s : State τ χ α) q => q = s.queues where
  toSimulates := queues_simulate hsize
  rests _ _ hv hq hrest := hq ▸ rests_queues hsize hv hrest
  accepts _ _ _ _ _ hq hcall := hq ▸ accepts_queues hcall

section
variable {γ : Type} {C : Client γ τ (Call χ α) (Result α)} {g : γ}

theorem channels_refine_queues (hsize : ∀ c, size c ≠ 0)
    (h : Reachable (hosted (threads size) C) (s, g)) :
    Reachable (hosted (queues size) C) (s.queues, g) := by
  obtain ⟨q, hq, rfl⟩ := (queues_refine hsize).hosted h
  exact hq

theorem channels_refine_queues_pair :
    ∃ s : State (Fin 2) Unit Nat, Reachable (hosted (queues fun _ => 1)
      (scripted fun t => if t = 0 then [.send () 7, .send () 8] else [.receive ()]))
        (s.queues, fun t => if t = 0 then ([.send () 8], [⟨.success, none, some 7⟩])
          else ([], [⟨.success, none, some 7⟩])) ∧
      s.queues.queue () = [8] := by
  let go (t : Fin 2) : Act (Fin 2) (Action (Fin 2) Unit Nat) := .run (.run t fun _ => true)
  obtain ⟨tr, p, hr, -, hq, h₀, h₁⟩ := replay_run (M := hosted (threads fun _ => 1)
      (scripted fun t => if t = 0 then [Call.send () 7, .send () 8] else [.receive ()]))
    (s := (State.initial (fun _ => 1) 0, fun t => (_, []))) ⟨initial_init _ 0, rfl⟩
    [.call 1, go 1, .call 0, go 0, go 0, go 0, .ret 0, .call 0, go 1, go 1, go 1, .ret 1, go 0]
    (fun _ p => p.1.queues.queue () = [8] ∧
      p.2 0 = ([.send () 8], [⟨.success, none, some 7⟩]) ∧ p.2 1 = ([], [⟨.success, none, some 7⟩]))
    (by decide +kernel)
  refine ⟨p.1, ?_, hq⟩
  have hp : p.2 = fun t => if t = 0 then ([.send () 8], [⟨.success, none, some 7⟩])
      else ([], [⟨.success, none, some 7⟩]) := by
    funext t
    match t with
    | 0 => exact h₀
    | 1 => exact h₁
  exact hp ▸ channels_refine_queues (by decide) ⟨tr, hr⟩

theorem stuck_refines_queues (hsize : ∀ c, size c ≠ 0)
    (h : Reachable (hosted (threads size) C) (s, g))
    (hstuck : Stuck (threads size) C Action.due s g) :
    Stuck (queues size) C Commit.due s.queues g := by
  obtain ⟨q, -, rfl, hq⟩ := (queues_refine hsize).stuck h hstuck
  exact hq

theorem stuck_refines_queues_receiver : ∃ (s : State (Fin 2) Unit Nat) (g : _),
    s.blockedOn () .notEmpty 0 = true ∧ Stuck (queues fun _ => 1)
      (scripted fun t => if t = 0 then [.receive ()] else []) Commit.due s.queues g := by
  let go (t : Fin 2) : Act (Fin 2) (Action (Fin 2) Unit Nat) := .run (.run t fun _ => true)
  obtain ⟨tr, p, hr, -, hblocked, hrun, hret, hcall⟩ := replay_run (M := hosted (threads fun _ => 1)
      (scripted fun t : Fin 2 => if t = 0 then [.receive ()] else []))
    (s := (State.initial (fun _ => 1) 0, fun t => (_, []))) ⟨initial_init _ 0, rfl⟩ [.call 0, go 0]
    (fun _ p => p.1.blockedOn () .notEmpty 0 = true ∧
      (∀ t wake, ((threads fun _ => 1).run p.1 (.run t wake)).isNone) ∧
      (∀ t, ((threads fun _ => 1).ret p.1 t).isNone) ∧
      ∀ t, (p.2 t).1.head?.all fun k => ((threads fun _ => 1).call p.1 t k).isNone)
    (by decide +kernel)
  have hstuck : Stuck (threads fun _ => 1)
      (scripted fun t : Fin 2 => if t = 0 then [.receive ()] else []) Action.due p.1 p.2 := by
    refine ⟨⟨fun a ha => ?_, fun t => by simpa using hret t⟩, fun t k hk => ?_, fun t => rfl⟩
    · cases a with
      | call t k => rfl
      | run t wake => simpa using hrun t wake
      | spurious t => exact ha.elim
    · have hk : (p.2 t).1.head? = some k := hk
      simpa [hk] using hcall t
  exact ⟨p.1, p.2, hblocked, stuck_refines_queues (by decide) ⟨tr, hr⟩ hstuck⟩

end

end OperatingSystems.Concurrency
