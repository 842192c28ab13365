import OperatingSystems.Stress.RouterNetwork

namespace OperatingSystems.Stress
open Calling Concurrency Transition

variable {n : Nat} [NeZero n] {topology : Topology n} {w : Network n} {i : Fin n}

section
variable (hno : ∀ w', ¬ Took (program topology) (fun _ => 1) w w')
include hno

theorem no_effect {t : Thread n} {k : Call (Chan n) (Message n)} {r : Result (Message n)}
    {queue : Chan n → List (Message n)} {closed : Chan n → Bool}
    (ask : (program topology).ask t (w.thread t) = some k) :
    ¬ Effect (fun _ => 1) w.queue w.closed k r queue closed :=
  fun effect => hno _ (.call t ask effect)

theorem no_move {t : Thread n} (ask : (program topology).ask t (w.thread t) = none) :
    (program topology).move t (w.thread t) w.memory = none := by
  cases hm : (program topology).move t (w.thread t) w.memory with
  | none => rfl
  | some p => exact (hno _ (.move t ask hm)).elim

theorem blocked_router (hs : Shaped topology i (w.routers i))
    (alive : (w.routers i).pc ≠ .exited ∧ (w.routers i).pc ≠ .failed) :
    ((w.routers i).pc = .select ∧ w.closed .done = false ∧
        (w.closed (.node i) = false → w.queue (.node i) = [])) ∨
      ((w.routers i).pc = .reply ∧ w.queue .completed ≠ []) := by
  have moves (hask : (w.routers i).ask i = none)
      (hmove : Router.move topology i (w.routers i) w.memory ≠ none) : False :=
    hmove (no_move (t := .router i) hno hask)
  cases hpc : (w.routers i).pc with
  | select =>
    left
    have hask : (program topology).ask (.router i) (w.thread (.router i)) =
        some (.select ((w.routers i).selectList.take (w.routers i).selectCount)) := by
      simp [program, Router.ask, Network.routers, show (w.thread (.router i)).pc = .select from hpc]
    have hentry {x : Nat} (hx : x < 2) : ((w.routers i).selectList.take
        (w.routers i).selectCount)[x]? = (w.routers i).selectList[x]? := by
      rw [List.getElem?_take, if_pos (hx.trans_le hs.two_le)]
    refine ⟨rfl, ?_, fun hopen => ?_⟩
    · by_contra hdone
      exact no_effect hno hask
        (.selectDenied 0 ((hentry (by omega)).trans hs.done) (by simpa using hdone))
    · cases hq : w.queue (.node i) with
      | nil => rfl
      | cons v rest =>
        exact (no_effect hno hask
          (.selectReceive 1 ((hentry (by omega)).trans hs.own) rfl hopen hq)).elim
  | reply =>
    refine .inr ⟨rfl, fun hempty => ?_⟩
    have hask : (program topology).ask (.router i) (w.thread (.router i)) =
        some (.send .completed ((w.routers i).report i)) := by
      simp [program, Router.ask, Network.routers, show (w.thread (.router i)).pc = .reply from hpc]
    exact no_effect hno hask (.send Chan.completed ((w.routers i).report i) (by simp [hempty]))
  | source p =>
    refine (moves (by simp [Router.ask, hpc]) ?_).elim
    simp only [Router.move, hpc]
    split
    · split <;> simp
    · simp
  | load p x k =>
    refine (moves (by simp [Router.ask, hpc]) ?_).elim
    simp only [Router.move, hpc]
    split <;> simp
  | store p x k y =>
    refine (moves (by simp [Router.ask, hpc]) ?_).elim
    simp only [Router.move, hpc]
    split <;> simp
  | cycle => exact (moves (by simp [Router.ask, hpc]) (by simp [Router.move, hpc])).elim
  | copy k => exact (moves (by simp [Router.ask, hpc]) (by simp [Router.move, hpc])).elim
  | exit => exact (moves (by simp [Router.ask, hpc]) (by simp [Router.move, hpc])).elim
  | exited => exact absurd hpc alive.1
  | failed => exact absurd hpc alive.2

theorem blocked_main : (∃ second i, (w.thread .main).pc = .flush second i ∧
      w.queue (.node i) ≠ []) ∨
    (∃ second i, (w.thread .main).pc = .gather second i ∧ w.queue .completed = []) ∨
    (∃ i, (w.thread .main).pc = .join i ∧ w.memory.freed i = false) ∨
    (w.thread .main).pc = .returned ∨ (w.thread .main).pc = .failed := by
  have asks {k : Call (Chan n) (Message n)} (hask : (w.thread .main).ask = some k) :
      (program topology).ask .main (w.thread .main) = some k := hask
  have moves (hask : (w.thread .main).ask = none)
      (hmove : Main.move (floydWarshall topology) (w.thread .main) w.memory ≠ none) : False :=
    hmove (no_move (t := .main) hno hask)
  have closes {c : Chan n} (hask : (w.thread .main).ask = some (.close c)) : False := by
    cases hc : w.closed c with
    | false => exact no_effect hno (asks hask) (.close c hc)
    | true => exact no_effect hno (asks hask) (.closeAgain c hc)
  cases hpc : (w.thread .main).pc with
  | flush second i =>
    refine .inl ⟨second, i, rfl, fun hempty => ?_⟩
    exact no_effect hno (asks (by simp [Main.ask, hpc])) (.send (.node i) none (by simp [hempty]))
  | gather second i =>
    refine .inr (.inl ⟨second, i, rfl, ?_⟩)
    cases hq : w.queue .completed with
    | nil => rfl
    | cons v rest =>
      exact (no_effect hno (asks (by simp [Main.ask, hpc])) (.receive .completed hq)).elim
  | source second i p =>
    refine (moves (by simp [Main.ask, hpc]) ?_).elim
    simp only [Main.move, hpc]
    split
    · split <;> simp
    · simp
  | oldEpoch i p index =>
    refine (moves (by simp [Main.ask, hpc]) ?_).elim
    simp only [Main.move, hpc]
    split <;> simp
  | newEpoch i p epoch =>
    refine (moves (by simp [Main.ask, hpc]) ?_).elim
    simp only [Main.move, hpc]
    split <;> simp
  | check src dst =>
    refine (moves (by simp [Main.ask, hpc]) ?_).elim
    simp only [Main.move, hpc]
    split
    · split <;> simp
    · simp
  | closeDone => exact (closes (c := .done) (by simp [Main.ask, hpc])).elim
  | join i =>
    refine .inr (.inr (.inl ⟨i, rfl, ?_⟩))
    have hmove := no_move (t := .main) hno (by simp [program, Main.ask, hpc])
    simpa [program, Main.move, hpc] using hmove
  | closeCompleted => exact (closes (c := .completed) (by simp [Main.ask, hpc])).elim
  | closeNode i => exact (closes (c := .node i) (by simp [Main.ask, hpc])).elim
  | returned => exact .inr (.inr (.inr (.inl rfl)))
  | failed => exact .inr (.inr (.inr (.inr rfl)))

theorem testing_goes (hr : Running topology w)
    (ht : Testing w.queue w.closed w.memory w.routers (w.thread .main)) : False := by
  obtain ⟨s, hstage, hround, -⟩ := ht.tested
  have hrouter (i : Fin n) := blocked_router hno (hr.stated i).shaped
    ⟨(ht.running i).2.1, (ht.running i).2.2⟩
  rcases blocked_main hno with ⟨second, i, hpc, hfull⟩ | ⟨second, i, hpc, hempty⟩ | ⟨i, hpc, -⟩ |
    hpc | hpc
  · rw [hpc] at hstage
    cases hstage
    have htoken := hround.token i
    have hold := hround.old i
    simp only [lt_self_iff_false, decide_false, Bool.toNat_false, Router.nulls] at htoken
    rcases hrouter i with ⟨-, -, hq⟩ | ⟨hreply, -⟩
    · exact hfull (hq (ht.isOpen _))
    · rw [if_pos hreply] at htoken
      omega
  · rw [hpc] at hstage
    cases hstage
    have hcounted := hround.counted
    rw [hempty] at hcounted
    obtain ⟨j, hj⟩ : ∃ j, j ∉ answerers w.routers (w.thread .main).rounds := by
      by_contra hall
      push Not at hall
      have huniv := Finset.card_eq_iff_eq_univ _ |>.mpr (Finset.eq_univ_iff_forall.mpr hall)
      rw [Fintype.card_fin] at huniv
      have := i.isLt
      simp only [List.length_nil] at hcounted
      omega
    have hlength : (w.routers j).replies.length ≠ (w.thread .main).rounds + 1 := by
      simpa [answerers] using hj
    have htoken := hround.token j
    have hold := hround.old j
    simp only [Bool.toNat_true, Router.nulls] at htoken
    rcases hrouter j with ⟨hselect, -, hq⟩ | ⟨-, hfull⟩
    · rw [hq (ht.isOpen _), hselect] at htoken
      simp at htoken
      omega
    · exact hfull hempty
  all_goals
    rw [hpc] at hstage
    cases hstage

theorem stuck_routed (hr : Running topology w) (hsteady : Steady w.routers) :
    (w.thread .main).pc = .returned ∧ ∀ i, (w.routers i).pc = .exited := by
  rcases hr.phase with ht | ⟨-, he⟩
  · exact (testing_goes hno hr ht).elim
  have he := he hsteady
  obtain ⟨c, hc, hclosed⟩ := he.closing
  rcases blocked_main hno with ⟨second, i, hpc, -⟩ | ⟨second, i, hpc, -⟩ | ⟨i, hpc, hfreed⟩ |
    hpc | hpc
  · rw [hpc] at hc
    cases hc
  · rw [hpc] at hc
    cases hc
  · rw [hpc] at hc
    cases hc
    have hexited : (w.routers i).pc ≠ .exited := fun h => by
      rw [(he.freed i).mpr h] at hfreed
      cases hfreed
    have hplace := he.place i
    have hfailed : (w.routers i).pc ≠ .failed := fun h => by
      rw [h] at hplace
      rcases hplace with h | ⟨h | h, -⟩ <;> cases h
    rcases blocked_router hno (hr.stated i).shaped ⟨hexited, hfailed⟩ with
      ⟨-, hdone, -⟩ | ⟨hreply, -⟩
    · rw [hclosed.done] at hdone
      cases hdone
    · rw [hreply] at hplace
      rcases hplace with h | ⟨h | h, -⟩ <;> cases h
  · rw [hpc] at hc
    cases hc
    exact ⟨hpc, fun i => (he.freed i).mp (hclosed.joined i i.isLt)⟩
  · rw [hpc] at hc
    cases hc

end

end OperatingSystems.Stress
