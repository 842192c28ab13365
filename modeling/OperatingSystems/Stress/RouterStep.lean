import OperatingSystems.Stress.RouterLinks

namespace OperatingSystems.Stress
open Concurrency

variable {n : Nat}

def RouterPc.hand : RouterPc n → Option (VectorPtr n)
  | .source p => some p
  | .load p _ _ => some p
  | .store p _ _ _ => some p
  | _ => none

inductive RouterFault (topology : Topology n) (i : Fin n) (closed : Chan n → Bool) (m : Memory n)
    (r : Router n) : Prop
  | done (pc : r.pc = .select) (shut : closed .done = true) (changed : r.changed = true)
  | node (j : Fin n) (pc : r.pc = .select) (shut : closed (.node j) = true)
  | completed (pc : r.pc = .reply) (shut : closed .completed = true)
  | freed (p : VectorPtr n) (hand : r.pc.hand = some p) (freed : m.freed p.owner = true)
  | infinite (p : VectorPtr n) (pc : r.pc = .source p)
      (infinite : topology.link i (m.vector p).src = infDistance)

inductive RouterStep (topology : Topology n) (i : Fin n) (queue : Chan n → List (Message n))
    (closed : Chan n → Bool) (m : Memory n) (r : Router n) :
    (Chan n → List (Message n)) → Memory n → Router n → Prop
  | send (x : Nat) (j : Fin n) (pc : r.pc = .select) (two_le : 2 ≤ x) (count : x < r.selectCount)
      (channel : r.channelAt x = some (.node j)) (empty : queue (.node j) = []) :
      RouterStep topology i queue closed m r
        (Function.update queue (.node j) [some ⟨i, r.curr⟩]) m (r.sent x).settle
  | vector (p : VectorPtr n) (pc : r.pc = .select) (head : queue (.node i) = [some p]) :
      RouterStep topology i queue closed m r (Function.update queue (.node i) []) m
        { r with pc := .source p }
  | null (pc : r.pc = .select) (head : queue (.node i) = [none]) :
      RouterStep topology i queue closed m r (Function.update queue (.node i) []) m
        { r with pc := .reply }
  | report (pc : r.pc = .reply) (empty : queue .completed = []) :
      RouterStep topology i queue closed m r (Function.update queue .completed [r.report i]) m
        r.replied
  | leave (pc : r.pc = .select) (shut : closed .done = true) (same : r.changed = false) :
      RouterStep topology i queue closed m r queue m { r with pc := .exit }
  | source (p : VectorPtr n) (pc : r.pc = .source p) (alive : m.freed p.owner = false)
      (finite : topology.link i (m.vector p).src ≠ infDistance) :
      RouterStep topology i queue closed m r queue m
        { r with pc := .load p (topology.link i (m.vector p).src) ⟨0, i.pos⟩ }
  | load (p : VectorPtr n) (d : Nat) (k : Fin n) (pc : r.pc = .load p d k)
      (alive : m.freed p.owner = false) :
      RouterStep topology i queue closed m r queue m
        { r with pc := .store p d k (addDistance d ((m.vector p).dist k)) }
  | improve (p : VectorPtr n) (d : Nat) (k : Fin n) (x : Nat) (pc : r.pc = .store p d k x)
      (less : x < (m.vector ⟨i, r.next⟩).dist k) :
      RouterStep topology i queue closed m r queue
        (m.write ⟨i, r.next⟩ { m.vector ⟨i, r.next⟩ with
          dist := Function.update (m.vector ⟨i, r.next⟩).dist k x })
        ({ r with changed := true }.relaxed p d k)
  | keep (p : VectorPtr n) (d : Nat) (k : Fin n) (x : Nat) (pc : r.pc = .store p d k x)
      (least : (m.vector ⟨i, r.next⟩).dist k ≤ x) :
      RouterStep topology i queue closed m r queue m (r.relaxed p d k)
  | cycle (pc : r.pc = .cycle) :
      RouterStep topology i queue closed m r queue
        (m.write ⟨i, r.next⟩ { m.vector ⟨i, r.next⟩ with
          epoch := (m.vector ⟨i, r.curr⟩).epoch + 1 })
        { r with pc := .copy ⟨0, i.pos⟩ }
  | copy (k : Fin n) (pc : r.pc = .copy k) :
      RouterStep topology i queue closed m r queue
        (m.write ⟨i, r.next⟩ { m.vector ⟨i, r.next⟩ with
          dist := Function.update (m.vector ⟨i, r.next⟩).dist k ((m.vector ⟨i, r.curr⟩).dist k) })
        (r.copied topology i k)
  | free (pc : r.pc = .exit) :
      RouterStep topology i queue closed m r queue
        { m with freed := Function.update m.freed i true } { r with pc := .exited }
  | fail (fault : RouterFault topology i closed m r) :
      RouterStep topology i queue closed m r queue m { r with pc := .failed }

inductive MainFault (solution : Matrix n) (closed : Chan n → Bool) (m : Memory n) (l : Main n) :
    Prop
  | flush (second : Bool) (i : Fin n) (pc : l.pc = .flush second i) (shut : closed (.node i) = true)
  | gather (second : Bool) (i : Fin n) (pc : l.pc = .gather second i)
      (shut : closed .completed = true)
  | closeDone (pc : l.pc = .closeDone) (shut : closed .done = true)
  | closeCompleted (pc : l.pc = .closeCompleted) (shut : closed .completed = true)
  | closeNode (i : Fin n) (pc : l.pc = .closeNode i) (shut : closed (.node i) = true)
  | source (second : Bool) (i : Fin n) (p : VectorPtr n) (pc : l.pc = .source second i p)
      (freed : m.freed p.owner = true)
  | oldEpoch (i : Fin n) (p : VectorPtr n) (index : Fin n) (pc : l.pc = .oldEpoch i p index)
      (freed : ∀ q, l.completed index = some q → m.freed q.owner = true)
  | newEpoch (i : Fin n) (p : VectorPtr n) (epoch : Nat) (pc : l.pc = .newEpoch i p epoch)
      (freed : m.freed p.owner = true)
  | check (src dst : Fin n) (pc : l.pc = .check src dst)
      (wrong : ∀ q, l.completed src = some q → m.freed q.owner = true ∨
        (m.vector q).dist dst ≠ solution.getDistance src dst)

inductive MainStep [NeZero n] (solution : Matrix n) (queue : Chan n → List (Message n))
    (closed : Chan n → Bool) (m : Memory n) (l : Main n) :
    (Chan n → List (Message n)) → (Chan n → Bool) → Main n → Prop
  | flush (second : Bool) (i : Fin n) (pc : l.pc = .flush second i) (empty : queue (.node i) = []) :
      MainStep solution queue closed m l (Function.update queue (.node i) [none]) closed
        (l.flushed second i)
  | gather (second : Bool) (i : Fin n) (data : Message n) (pc : l.pc = .gather second i)
      (head : queue .completed = [data]) :
      MainStep solution queue closed m l (Function.update queue .completed []) closed
        (l.received second i data)
  | note (i : Fin n) (p : VectorPtr n) (pc : l.pc = .source false i p)
      (alive : m.freed p.owner = false) :
      MainStep solution queue closed m l queue closed
        ({ l with completed := Function.update l.completed (m.vector p).src (some p) }.gathered
          false i)
  | index (i : Fin n) (p : VectorPtr n) (pc : l.pc = .source true i p)
      (alive : m.freed p.owner = false) :
      MainStep solution queue closed m l queue closed
        { l with pc := .oldEpoch i p (m.vector p).src }
  | oldEpoch (i : Fin n) (p : VectorPtr n) (index : Fin n) (q : VectorPtr n)
      (pc : l.pc = .oldEpoch i p index) (noted : l.completed index = some q)
      (alive : m.freed q.owner = false) :
      MainStep solution queue closed m l queue closed
        { l with pc := .newEpoch i p (m.vector q).epoch }
  | newEpoch (i : Fin n) (p : VectorPtr n) (epoch : Nat) (pc : l.pc = .newEpoch i p epoch)
      (alive : m.freed p.owner = false) :
      MainStep solution queue closed m l queue closed
        ({ l with valid := l.valid && epoch = (m.vector p).epoch }.gathered true i)
  | check (src dst : Fin n) (q : VectorPtr n) (pc : l.pc = .check src dst)
      (noted : l.completed src = some q) (alive : m.freed q.owner = false)
      (right : (m.vector q).dist dst = solution.getDistance src dst) :
      MainStep solution queue closed m l queue closed (l.checked src dst)
  | closeDone (pc : l.pc = .closeDone) (isOpen : closed .done = false) :
      MainStep solution queue closed m l queue (Function.update closed .done true)
        { l with pc := .join 0 }
  | join (i : Fin n) (pc : l.pc = .join i) (freed : m.freed i = true) :
      MainStep solution queue closed m l queue closed (l.joined i)
  | closeCompleted (pc : l.pc = .closeCompleted) (isOpen : closed .completed = false) :
      MainStep solution queue closed m l queue (Function.update closed .completed true)
        { l with pc := .closeNode 0 }
  | closeNode (i : Fin n) (pc : l.pc = .closeNode i) (isOpen : closed (.node i) = false) :
      MainStep solution queue closed m l queue (Function.update closed (.node i) true)
        (l.closed i)
  | fail (fault : MainFault solution closed m l) :
      MainStep solution queue closed m l queue closed { l with pc := .failed }

inductive Step [NeZero n] (topology : Topology n) (w : Network n) : Network n → Prop
  | router (i : Fin n) {queue : Chan n → List (Message n)} {m : Memory n} {r : Router n}
      (step : RouterStep topology i w.queue w.closed w.memory (w.thread (.router i)) queue m r) :
      Step topology w ({ w with queue := queue, memory := m }.set (.router i) r)
  | main {queue : Chan n → List (Message n)} {closed : Chan n → Bool} {l : Main n}
      (step : MainStep (floydWarshall topology) w.queue w.closed w.memory (w.thread .main) queue
        closed l) :
      Step topology w ({ w with queue := queue, closed := closed }.set .main l)

structure Roomy (queue : Chan n → List (Message n)) : Prop where
  length_le : ∀ c, (queue c).length ≤ 1
  done : queue .done = []

section
variable {queue queue' : Chan n → List (Message n)} {closed closed' : Chan n → Bool}

theorem Roomy.full (hq : Roomy queue) {c : Chan n} {v : Message n} {rest : List (Message n)}
    (h : queue c = v :: rest) : rest = [] := by
  have hlen := hq.length_le c
  rw [h, List.length_cons] at hlen
  exact List.length_eq_zero_iff.mp (by omega)

theorem Roomy.update (hq : Roomy queue) {c : Chan n} (hc : c ≠ .done) {l : List (Message n)}
    (hl : l.length ≤ 1) : Roomy (Function.update queue c l) := by
  refine ⟨fun c' => ?_, by rw [Function.update_of_ne hc.symm]; exact hq.done⟩
  by_cases h : c' = c
  · subst h
    simpa using hl
  · simpa [h] using hq.length_le c'

variable {topology : Topology n} {i : Fin n} {m m' : Memory n} {r r' : Router n} {l : Main n}

theorem router_call (hs : Shaped topology i r) (hq : Roomy queue) {k : Call (Chan n) (Message n)}
    {result : Result (Message n)} (ask : r.ask i = some k)
    (effect : Effect (fun _ => 1) queue closed k result queue' closed') :
    closed' = closed ∧ RouterStep topology i queue closed m r queue' m (r.answer result) := by
  simp only [Router.ask] at ask
  split at ask
  · rename_i pc
    cases ask
    generalize hlist : r.selectList.take r.selectCount = entries at effect
    have hentry {x : Nat} {e : Link n} (he : entries[x]? = some e) :
        x < r.selectCount ∧ r.selectList[x]? = some e := by
      rw [← hlist, List.getElem?_take] at he
      split at he
      · exact ⟨‹_›, he⟩
      · cases he
    cases effect with
    | denied call shut => rcases call with ⟨v, hk⟩ | hk <;> cases hk
    | @selectSend _ e x entry dir isOpen room =>
      obtain ⟨hx, he⟩ := hentry entry
      match x with
      | 0 =>
        cases he.symm.trans hs.done
        cases dir
      | 1 =>
        cases he.symm.trans hs.own
        cases dir
      | x + 2 =>
        obtain ⟨-, hdata, j, -, hj⟩ := hs.sends _ e (Nat.le_add_left 2 x) he
        have hempty : queue (.node j) = [] := by
          rw [hj] at room
          exact List.length_eq_zero_iff.mp (Nat.lt_one_iff.mp room)
        rw [hj, hempty, hdata (by rw [pc]; rfl)]
        refine ⟨rfl, ?_⟩
        have hanswer : r.answer ⟨.success, some (x + 2), some (some ⟨i, r.curr⟩)⟩ =
            (r.sent (x + 2)).settle := by simp [Router.answer, pc, Router.selected]
        rw [hanswer]
        exact .send (x + 2) j pc (Nat.le_add_left 2 x) hx (by rw [Router.channelAt, he]; simp [hj])
          hempty
    | @selectReceive _ e v rest x entry dir isOpen head =>
      obtain ⟨hx, he⟩ := hentry entry
      match x with
      | 0 =>
        cases he.symm.trans hs.done
        rw [hq.done] at head
        cases head
      | 1 =>
        cases he.symm.trans hs.own
        obtain rfl := hq.full head
        refine ⟨rfl, ?_⟩
        cases v with
        | none =>
          rw [show r.answer _ = { r with pc := .reply } by simp [Router.answer, pc, Router.selected]]
          exact .null pc head
        | some p =>
          rw [show r.answer _ = { r with pc := .source p } by
            simp [Router.answer, pc, Router.selected]]
          exact .vector p pc head
      | x + 2 =>
        obtain ⟨hdir, -⟩ := hs.sends _ e (Nat.le_add_left 2 x) he
        cases dir.symm.trans hdir
    | @selectDenied _ e x entry shut =>
      obtain ⟨hx, he⟩ := hentry entry
      refine ⟨rfl, ?_⟩
      match x with
      | 0 =>
        cases he.symm.trans hs.done
        cases hc : r.changed with
        | false =>
          rw [show r.answer _ = { r with pc := .exit } by simp [Router.answer, pc, hc]]
          exact .leave pc shut hc
        | true =>
          rw [show r.answer _ = { r with pc := .failed } by simp [Router.answer, pc, hc]]
          exact .fail (.done pc shut hc)
      | 1 =>
        cases he.symm.trans hs.own
        rw [show r.answer _ = { r with pc := .failed } by simp [Router.answer, pc]]
        exact .fail (.node i pc shut)
      | x + 2 =>
        obtain ⟨-, -, j, -, hj⟩ := hs.sends _ e (Nat.le_add_left 2 x) he
        rw [show r.answer _ = { r with pc := .failed } by simp [Router.answer, pc]]
        rw [hj] at shut
        exact .fail (.node j pc shut)
    | selectNothing =>
      have hlen := congrArg List.length hlist
      have := hs.two_le
      have := hs.count_le
      rw [List.length_take, List.length_nil] at hlen
      omega
  · rename_i pc
    cases ask
    cases effect with
    | send c v room =>
      have hempty : queue .completed = [] := List.length_eq_zero_iff.mp (Nat.lt_one_iff.mp room)
      rw [hempty, show r.answer _ = r.replied by simp [Router.answer, pc]]
      exact ⟨rfl, .report pc hempty⟩
    | denied call shut =>
      rcases call with ⟨v, hk⟩ | hk <;> cases hk
      rw [show r.answer _ = { r with pc := .failed } by simp [Router.answer, pc]]
      exact ⟨rfl, .fail (.completed pc shut)⟩
  · cases ask

theorem read_none {p : VectorPtr n} (h : m.read p = none) : m.freed p.owner = true := by
  by_contra hf
  rw [Memory.read, if_neg hf] at h
  cases h

theorem read_some {p : VectorPtr n} {v : DistanceVector n} (h : m.read p = some v) :
    m.freed p.owner = false ∧ v = m.vector p := by
  rw [Memory.read] at h
  split at h
  · cases h
  · rename_i hf
    cases h
    exact ⟨by simpa using hf, rfl⟩

theorem router_move {topology : Topology n} (move : r.move topology i m = some (r', m')) :
    RouterStep topology i queue closed m r queue m' r' := by
  simp only [Router.move] at move
  split at move
  · rename_i p pc
    split at move
    · rename_i v hv
      obtain ⟨halive, rfl⟩ := read_some hv
      split at move
      · cases move
        exact .fail (.infinite p pc ‹_›)
      · cases move
        exact .source p pc halive ‹_›
    · rename_i hv
      cases move
      exact .fail (.freed p (by rw [pc]; rfl) (read_none hv))
  · rename_i p d k pc
    split at move
    · rename_i v hv
      obtain ⟨halive, rfl⟩ := read_some hv
      cases move
      exact .load p d k pc halive
    · rename_i hv
      cases move
      exact .fail (.freed p (by rw [pc]; rfl) (read_none hv))
  · rename_i p d k x pc
    split at move
    · cases move
      exact .improve p d k x pc ‹_›
    · cases move
      exact .keep p d k x pc (Nat.le_of_not_lt ‹_›)
  · cases move
    exact .cycle ‹_›
  · rename_i k pc
    cases move
    exact .copy k pc
  · cases move
    exact .free ‹_›
  · cases move

variable [NeZero n]

theorem main_call {solution : Matrix n} (hq : Roomy queue) {k : Call (Chan n) (Message n)}
    {result : Result (Message n)} (ask : l.ask = some k)
    (effect : Effect (fun _ => 1) queue closed k result queue' closed') :
    MainStep solution queue closed m l queue' closed' (l.answer result) := by
  have hshut : ∀ pc, l.pc = pc → l.answer ⟨.closedError, none, none⟩ = { l with pc := .failed } := by
    intro pc hpc
    simp [Main.answer]
  simp only [Main.ask] at ask
  split at ask
  · rename_i second i pc
    cases ask
    cases effect with
    | send c v room =>
      have hempty : queue (.node i) = [] := List.length_eq_zero_iff.mp (Nat.lt_one_iff.mp room)
      rw [hempty, show l.answer _ = l.flushed second i by simp [Main.answer, pc]]
      exact .flush second i pc hempty
    | denied call shut =>
      rcases call with ⟨v, hk⟩ | hk <;> cases hk
      rw [hshut _ pc]
      exact .fail (.flush second i pc shut)
  · rename_i second i pc
    cases ask
    cases effect with
    | @receive c v rest head =>
      obtain rfl := hq.full head
      rw [show l.answer _ = l.received second i v by simp [Main.answer, pc]]
      exact .gather second i v pc head
    | denied call shut =>
      rcases call with ⟨v, hk⟩ | hk <;> cases hk
      rw [hshut _ pc]
      exact .fail (.gather second i pc shut)
  · rename_i pc
    cases ask
    cases effect with
    | denied call shut => rcases call with ⟨v, hk⟩ | hk <;> cases hk
    | close c isOpen =>
      rw [show l.answer _ = { l with pc := .join 0 } by simp [Main.answer, pc]]
      exact .closeDone pc isOpen
    | closeAgain c shut =>
      rw [hshut _ pc]
      exact .fail (.closeDone pc shut)
  · rename_i pc
    cases ask
    cases effect with
    | denied call shut => rcases call with ⟨v, hk⟩ | hk <;> cases hk
    | close c isOpen =>
      rw [show l.answer _ = { l with pc := .closeNode 0 } by simp [Main.answer, pc]]
      exact .closeCompleted pc isOpen
    | closeAgain c shut =>
      rw [hshut _ pc]
      exact .fail (.closeCompleted pc shut)
  · rename_i i pc
    cases ask
    cases effect with
    | denied call shut => rcases call with ⟨v, hk⟩ | hk <;> cases hk
    | close c isOpen =>
      rw [show l.answer _ = l.closed i by simp [Main.answer, pc]]
      exact .closeNode i pc isOpen
    | closeAgain c shut =>
      rw [hshut _ pc]
      exact .fail (.closeNode i pc shut)
  · cases ask

theorem main_move {solution : Matrix n} {l' : Main n} (move : l.move solution m = some (l', m')) :
    m' = m ∧ MainStep solution queue closed m l queue closed l' := by
  simp only [Main.move] at move
  have hnoted {index : Fin n} (h : (l.completed index).bind m.read = none) (q : VectorPtr n)
      (hq : l.completed index = some q) : m.freed q.owner = true := by
    rw [hq] at h
    exact read_none h
  split at move
  · rename_i second i p pc
    split at move
    · rename_i v hv
      obtain ⟨halive, rfl⟩ := read_some hv
      cases second with
      | true =>
        cases move
        exact ⟨rfl, .index i p pc halive⟩
      | false =>
        cases move
        exact ⟨rfl, .note i p pc halive⟩
    · rename_i hv
      cases move
      exact ⟨rfl, .fail (.source second i p pc (read_none hv))⟩
  · rename_i i p index pc
    split at move
    · rename_i v hv
      obtain ⟨q, hq, hv⟩ := Option.bind_eq_some_iff.mp hv
      obtain ⟨halive, rfl⟩ := read_some hv
      cases move
      exact ⟨rfl, .oldEpoch i p index q pc hq halive⟩
    · rename_i hv
      cases move
      exact ⟨rfl, .fail (.oldEpoch i p index pc (hnoted hv))⟩
  · rename_i i p epoch pc
    split at move
    · rename_i v hv
      obtain ⟨halive, rfl⟩ := read_some hv
      cases move
      exact ⟨rfl, .newEpoch i p epoch pc halive⟩
    · rename_i hv
      cases move
      exact ⟨rfl, .fail (.newEpoch i p epoch pc (read_none hv))⟩
  · rename_i src dst pc
    split at move
    · rename_i v hv
      obtain ⟨q, hq, hv⟩ := Option.bind_eq_some_iff.mp hv
      obtain ⟨halive, rfl⟩ := read_some hv
      split at move
      · cases move
        exact ⟨rfl, .check src dst q pc hq halive ‹_›⟩
      · rename_i hwrong
        cases move
        refine ⟨rfl, .fail (.check src dst pc fun q' hq' => ?_)⟩
        cases hq.symm.trans hq'
        exact .inr hwrong
    · rename_i hv
      cases move
      exact ⟨rfl, .fail (.check src dst pc fun q hq => .inl (hnoted hv q hq))⟩
  · rename_i i pc
    split at move
    · cases move
      exact ⟨rfl, .join i pc ‹_›⟩
    · cases move
  · cases move

end

section
variable [NeZero n] {topology : Topology n} {w w' : Network n}

theorem program_plain (t : Thread n) (l : Local t) (k : Call (Chan n) (Message n))
    (h : (program topology).ask t l = some k) : k.plain := by
  cases t with
  | main =>
    simp only [program, Main.ask] at h
    split at h <;> cases h <;> trivial
  | router i =>
    simp only [program, Router.ask] at h
    split at h <;> cases h <;> trivial

theorem took_step (hs : ∀ i, Shaped topology i (w.thread (.router i))) (hq : Roomy w.queue)
    (h : Took (program topology) (fun _ => 1) w w') : Step topology w w' := by
  cases h with
  | @call t k r queue closed ask effect =>
    cases t with
    | main => exact .main (main_call hq ask effect)
    | router i =>
      obtain ⟨rfl, hstep⟩ := router_call (hs i) hq ask effect
      exact .router i hstep
  | @move t l memory ask moved =>
    cases t with
    | main =>
      obtain ⟨rfl, hstep⟩ := main_move moved
      exact .main hstep
    | router i => exact .router i (router_move moved)

end

end OperatingSystems.Stress
