import OperatingSystems.Stress.SendRecv

namespace OperatingSystems.SendRecv
open Concurrency

variable {n numMsgs b : Nat} {w w' : Ring n}

-- how far the main thread is; `closed` counts `main_channel` first, `lost` the `NULL` that made an
-- assertion fail
structure Progress where
  nextMsg : Nat
  unstarted : Nat
  early : Bool
  gathered : Nat
  stopped : Nat
  joined : Nat
  closed : Nat
  lost : Nat

def MainPc.progress (n numMsgs : Nat) : MainPc → Progress
  | .insert msg => ⟨msg, n, true, 0, 0, 0, 0, 0⟩
  | .start i => ⟨numMsgs + 1, n - i, true, 0, 0, 0, 0, 0⟩
  | .sleep => ⟨numMsgs + 1, 0, true, 0, 0, 0, 0, 0⟩
  | .collect msg => ⟨numMsgs + 1, 0, false, msg - 1, 0, 0, 0, 0⟩
  | .stop i => ⟨numMsgs + 1, 0, false, numMsgs, i, 0, 0, 0⟩
  | .join i => ⟨numMsgs + 1, 0, false, numMsgs, n, i, 0, 0⟩
  | .closeMain => ⟨numMsgs + 1, 0, false, numMsgs, n, n, 0, 0⟩
  | .closeRing i => ⟨numMsgs + 1, 0, false, numMsgs, n, n, i + 1, 0⟩
  | .returned => ⟨numMsgs + 1, 0, false, numMsgs, n, n, n + 1, 0⟩
  | .failed => ⟨numMsgs + 1, 0, false, 0, 0, 0, 0, 1⟩

def MainPc.fits (n numMsgs : Nat) : MainPc → Prop
  | .insert msg => 1 ≤ msg ∧ msg ≤ numMsgs
  | .collect msg => 1 ≤ msg ∧ msg ≤ numMsgs
  | .start i | .stop i | .join i | .closeRing i => i < n
  | _ => True

-- a loop that ends goes on as if it made one more round
section
variable (numMsgs) {i m : Nat}

theorem closeFrom_progress (h : i ≤ n) : (MainPc.closeFrom n i).fits n numMsgs ∧
    (MainPc.closeFrom n i).progress n numMsgs = (MainPc.closeRing i).progress n numMsgs := by
  unfold MainPc.closeFrom
  split
  · exact ⟨‹_›, rfl⟩
  · obtain rfl : i = n := by omega
    exact ⟨trivial, rfl⟩

theorem joinFrom_progress (h : i ≤ n) : (MainPc.joinFrom n i).fits n numMsgs ∧
    (MainPc.joinFrom n i).progress n numMsgs = (MainPc.join i).progress n numMsgs := by
  unfold MainPc.joinFrom
  split
  · exact ⟨‹_›, rfl⟩
  · obtain rfl : i = n := by omega
    exact ⟨trivial, rfl⟩

theorem stopFrom_progress (h : i ≤ n) : (MainPc.stopFrom n i).fits n numMsgs ∧
    (MainPc.stopFrom n i).progress n numMsgs = (MainPc.stop i).progress n numMsgs := by
  unfold MainPc.stopFrom
  split
  · exact ⟨‹_›, rfl⟩
  · obtain rfl : i = n := by omega
    exact joinFrom_progress numMsgs (Nat.zero_le _)

theorem startFrom_progress (h : i ≤ n) : (MainPc.startFrom n i).fits n numMsgs ∧
    (MainPc.startFrom n i).progress n numMsgs = (MainPc.start i).progress n numMsgs := by
  unfold MainPc.startFrom
  split
  · exact ⟨‹_›, rfl⟩
  · obtain rfl : i = n := by omega
    exact ⟨trivial, by simp [MainPc.progress]⟩

theorem collectFrom_progress (n : Nat) {numMsgs : Nat} (h : m ≤ numMsgs) :
    (MainPc.collectFrom n numMsgs (m + 1)).fits n numMsgs ∧
      (MainPc.collectFrom n numMsgs (m + 1)).progress n numMsgs =
        (MainPc.collect (m + 1)).progress n numMsgs := by
  unfold MainPc.collectFrom
  split
  · exact ⟨⟨Nat.succ_le_succ (Nat.zero_le m), ‹_›⟩, rfl⟩
  · obtain rfl : m = numMsgs := by omega
    exact stopFrom_progress _ (Nat.zero_le _)

theorem insertFrom_progress (n : Nat) {numMsgs : Nat} (h : m ≤ numMsgs) :
    (MainPc.insertFrom n numMsgs (m + 1)).fits n numMsgs ∧
      (MainPc.insertFrom n numMsgs (m + 1)).progress n numMsgs =
        (MainPc.insert (m + 1)).progress n numMsgs := by
  unfold MainPc.insertFrom
  split
  · exact ⟨⟨Nat.succ_le_succ (Nat.zero_le m), ‹_›⟩, rfl⟩
  · obtain rfl : m = numMsgs := by omega
    exact startFrom_progress _ (Nat.zero_le _)

end

abbrev Ring.progress (w : Ring n) (numMsgs : Nat) : Progress :=
  (w.thread .main).pc.progress n numMsgs

-- the threads end, and the channels are closed, in the order of `run_stress_send_recv`
structure Paced (numMsgs : Nat) (w : Ring n) : Prop where
  fits : (w.thread .main).pc.fits n numMsgs
  alive : ∀ i, (w.thread (.worker i)).pc ≠ .failed
  exited : ∀ i, w.memory.exited i = true ↔ (w.thread (.worker i)).pc = .exited
  joined : ∀ i : Fin n, i < (w.progress numMsgs).joined → w.memory.exited i = true
  mainOpen : w.closed .main = true → 1 ≤ (w.progress numMsgs).closed
  ringOpen : ∀ i : Fin n, w.closed (.ring i) = true → i + 1 < (w.progress numMsgs).closed
  early : (w.progress numMsgs).early = true → w.memory.done = false
  done : ∀ i data, (w.thread (.worker i)).pc = .sendMain data → w.memory.done = true

theorem sends_progress {p pc : MainPc} {c : Chan n} {v : Nat} (hfits : p.fits n numMsgs)
    (h : Main.Sends n numMsgs p c v pc) : pc.fits n numMsgs ∧
      (pc.progress n numMsgs).early = (p.progress n numMsgs).early ∧
      (pc.progress n numMsgs).joined = (p.progress n numMsgs).joined ∧
      (p.progress n numMsgs).closed = 0 ∧ (pc.progress n numMsgs).closed = 0 := by
  cases h with
  | insert =>
    obtain ⟨hf, hp⟩ := insertFrom_progress n hfits.2
    rw [hp]
    exact ⟨hf, rfl, rfl, rfl, rfl⟩
  | start i =>
    obtain ⟨hf, hp⟩ := startFrom_progress numMsgs (Nat.succ_le_of_lt hfits)
    rw [hp]
    exact ⟨hf, rfl, rfl, rfl, rfl⟩
  | stop i =>
    obtain ⟨hf, hp⟩ := stopFrom_progress numMsgs (Nat.succ_le_of_lt i.isLt)
    rw [hp]
    exact ⟨hf, rfl, rfl, rfl, rfl⟩

theorem closes_progress (numMsgs : Nat) {p pc : MainPc} {c : Chan n} (h : Main.Closes n p c pc) :
    pc.fits n numMsgs ∧ (p.progress n numMsgs).joined = n ∧
      (pc.progress n numMsgs).early = false ∧
      (pc.progress n numMsgs).closed = (p.progress n numMsgs).closed + 1 ∧
      (pc.progress n numMsgs).nextMsg = (p.progress n numMsgs).nextMsg ∧
      match c with
      | .main => (p.progress n numMsgs).closed = 0
      | .ring i => (p.progress n numMsgs).closed = i + 1 := by
  cases h with
  | main =>
    obtain ⟨hf, hp⟩ := closeFrom_progress numMsgs (Nat.zero_le n)
    rw [hp]
    exact ⟨hf, rfl, rfl, rfl, rfl, rfl⟩
  | ring i =>
    obtain ⟨hf, hp⟩ := closeFrom_progress numMsgs (Nat.succ_le_of_lt i.isLt)
    rw [hp]
    exact ⟨hf, rfl, rfl, rfl, rfl, rfl⟩

theorem asks_open (hw : Paced numMsgs w) {c : Chan n} (shut : w.closed c = true)
    (asks : (∃ v pc, Main.Sends n numMsgs (w.thread .main).pc c v pc) ∨
        (c = .main ∧ ∃ msg, (w.thread .main).pc = .collect msg) ∨
          ∃ pc, Main.Closes n (w.thread .main).pc c pc) : False := by
  have hlate : (match c with
      | .main => 1
      | .ring i => i + 2) ≤ (w.progress numMsgs).closed := by
    cases c with
    | main => exact hw.mainOpen shut
    | ring i => exact hw.ringOpen i shut
  rcases asks with ⟨v, pc, hs⟩ | ⟨rfl, msg, hpc⟩ | ⟨pc, hc⟩
  · have hzero := (sends_progress hw.fits hs).2.2.2.1
    rw [Ring.progress, hzero] at hlate
    cases c <;> simp at hlate
  · simp [Ring.progress, hpc, MainPc.progress] at hlate
  · have hnow := (closes_progress numMsgs hc).2.2.2.2.2
    cases c with
    | main => rw [Ring.progress, hnow] at hlate; simp at hlate
    | ring i => rw [Ring.progress, hnow] at hlate; simp at hlate

theorem workers_open (hw : Paced numMsgs w) {i : Fin n} {c : Chan n} (shut : w.closed c = true) :
    (w.thread (.worker i)).pc = .exited := by
  refine (hw.exited i).mp (hw.joined i ?_)
  have hlate : 0 < (w.progress numMsgs).closed := by
    cases c with
    | main => exact hw.mainOpen shut
    | ring j => exact Nat.lt_of_le_of_lt (Nat.zero_le _) (hw.ringOpen j shut)
  have hpc := (w.thread .main).pc
  revert hlate
  simp only [Ring.progress]
  cases (w.thread .main).pc <;> simp [MainPc.progress]

theorem Paced.worker (hw : Paced numMsgs w) (queue : Chan n → List Nat) {i : Fin n} {l : Worker}
    (before : (w.thread (.worker i)).pc ≠ .exited) (after : l.pc ≠ .exited) (alive : l.pc ≠ .failed)
    (done : ∀ data, l.pc = .sendMain data → w.memory.done = true) :
    Paced numMsgs ({ w with queue := queue }.set (.worker i) l) := by
  refine ⟨by simpa using hw.fits, fun j => ?_, fun j => ?_, fun j hj => ?_, ?_, ?_, ?_,
    fun j data hj => ?_⟩
  · by_cases hj : j = i
    · subst hj
      simpa using alive
    · simpa [hj] using hw.alive j
  · by_cases hj : j = i
    · subst hj
      simpa [after] using before ∘ (hw.exited j).mp
    · simpa [hj] using hw.exited j
  · exact hw.joined j (by simpa [Ring.progress] using hj)
  · simpa [Ring.progress] using hw.mainOpen
  · simpa [Ring.progress] using hw.ringOpen
  · simpa [Ring.progress] using hw.early
  · by_cases hji : j = i
    · subst hji
      exact done data (by simpa using hj)
    · exact hw.done j data (by simpa [hji] using hj)

theorem Paced.main (hw : Paced numMsgs w) (queue : Chan n → List Nat) {l : Main}
    (fits : l.pc.fits n numMsgs)
    (joined : ∀ i : Fin n, i < (l.pc.progress n numMsgs).joined → w.memory.exited i = true)
    (closed : (w.progress numMsgs).closed ≤ (l.pc.progress n numMsgs).closed)
    (early : (l.pc.progress n numMsgs).early = true → w.memory.done = false) :
    Paced numMsgs ({ w with queue := queue }.set .main l) :=
  ⟨by simpa using fits, by simpa using hw.alive, by simpa using hw.exited,
    by simpa [Ring.progress] using joined,
    fun h => by simpa [Ring.progress] using (hw.mainOpen h).trans closed,
    fun i h => by simpa [Ring.progress] using (hw.ringOpen i h).trans_le closed,
    by simpa [Ring.progress] using early, by simpa using hw.done⟩

theorem received_pc (l : Worker) (v : Nat) : l.received v = { start := false, pc := .receive } ∨
    (l.received v).pc = .exit ∨ (l.received v).pc = .load v := by
  unfold Worker.received
  split
  · split
    · exact .inl rfl
    · exact .inr (.inl rfl)
  · exact .inr (.inr rfl)

theorem step_paced (hw : Paced numMsgs w) (h : Step n numMsgs b w w') : Paced numMsgs w' := by
  cases h with
  | mainSend c v pc sends room =>
    obtain ⟨hf, he, hj, hc, -⟩ := sends_progress hw.fits sends
    refine hw.main _ hf (fun i hi => hw.joined i (hj ▸ hi)) ?_ fun h => hw.early (he ▸ h)
    rw [Ring.progress, hc]
    exact Nat.zero_le _
  | collect msg v rest pc head =>
    have hfits := hw.fits
    rw [pc] at hfits
    have hclosed : (w.progress numMsgs).closed = 0 := by simp [Ring.progress, pc, MainPc.progress]
    unfold Main.collected
    split
    · obtain ⟨hf, hp⟩ := collectFrom_progress n hfits.2
      refine hw.main _ hf (fun i hi => ?_) (hclosed ▸ Nat.zero_le _) fun h => ?_
      · rw [hp] at hi
        exact absurd hi (Nat.not_lt_zero _)
      · rw [hp] at h
        cases h
    · refine hw.main _ trivial (fun i hi => ?_) (hclosed ▸ Nat.zero_le _) fun h => ?_
      · exact absurd hi (Nat.not_lt_zero _)
      · cases h
  | sleep pc =>
    obtain ⟨hf, hp⟩ := collectFrom_progress n (Nat.zero_le numMsgs)
    have hopen : ∀ c, w.closed c = false := by
      intro c
      by_contra hno
      cases c with
      | main => simpa [Ring.progress, pc, MainPc.progress] using hw.mainOpen (by simpa using hno)
      | ring i => simpa [Ring.progress, pc, MainPc.progress] using hw.ringOpen i (by simpa using hno)
    refine ⟨by simpa using hf, by simpa using hw.alive, by simpa using hw.exited, fun i hi => ?_,
      by simp [hopen], by simp [hopen], fun h => ?_, by simp⟩
    · simp only [Ring.progress, World.set_thread, Function.update_self, hp] at hi
      exact absurd hi (Nat.not_lt_zero _)
    · simp only [Ring.progress, World.set_thread, Function.update_self, hp] at h
      cases h
  | join i pc exited =>
    obtain ⟨hf, hp⟩ := joinFrom_progress numMsgs (Nat.succ_le_of_lt i.isLt)
    refine hw.main w.queue hf (fun j hj => ?_) ?_ fun h => ?_
    · rw [hp] at hj
      rcases Nat.lt_succ_iff_lt_or_eq.mp hj with hlt | heq
      · exact hw.joined j (by simpa [Ring.progress, pc, MainPc.progress] using hlt)
      · rwa [Fin.ext heq]
    · simp [Ring.progress, pc, MainPc.progress]
    · rw [hp] at h
      cases h
  | close c pc closes isOpen =>
    obtain ⟨hf, hj, he, hc, -, hnow⟩ := closes_progress numMsgs closes
    have hexited : ∀ i, w.memory.exited i = true := fun i => hw.joined i (by rw [Ring.progress, hj]; exact i.isLt)
    refine ⟨by simpa using hf, by simpa using hw.alive, by simpa using hw.exited,
      fun i _ => hexited i, fun h => ?_, fun i h => ?_, by simp [Ring.progress, he],
      by simpa using hw.done⟩
    · simp [Ring.progress, hc]
    · simp only [Ring.progress, World.set_thread, Function.update_self, hc]
      by_cases hci : c = .ring i
      · subst hci
        simp only at hnow
        omega
      · have h : w.closed (.ring i) = true := by simpa [Ne.symm hci] using h
        exact Nat.lt_succ_of_lt (hw.ringOpen i h)
  | mainDenied c shut asks => exact (asks_open hw shut asks).elim
  | receive i v rest pc head =>
    refine hw.worker _ (by simp [pc]) ?_ ?_ ?_
    · rcases received_pc (w.thread (.worker i)) v with h | h | h <;> simp [h]
    · rcases received_pc (w.thread (.worker i)) v with h | h | h <;> simp [h]
    · rcases received_pc (w.thread (.worker i)) v with h | h | h <;> simp [h]
  | load i data pc =>
    refine hw.worker w.queue (by simp [pc]) ?_ ?_ ?_
    · dsimp only
      split <;> simp
    · dsimp only
      split <;> simp
    · dsimp only
      split <;> simp [*]
  | send i data c sends room =>
    refine hw.worker _ ?_ (by simp) (by simp) (by simp)
    generalize (w.thread (.worker i)).pc = pc at sends
    cases sends <;> simp
  | exit i pc =>
    refine ⟨by simpa using hw.fits, fun j => ?_, fun j => ?_, fun j hj => ?_, ?_, ?_, ?_,
      fun j data hj => ?_⟩
    · by_cases hj : j = i
      · subst hj
        simp
      · simpa [hj] using hw.alive j
    · by_cases hj : j = i
      · subst hj
        simp
      · simpa [hj] using hw.exited j
    · by_cases hji : j = i
      · subst hji
        simp
      · simpa [hji] using hw.joined j (by simpa [Ring.progress] using hj)
    · simpa [Ring.progress] using hw.mainOpen
    · simpa [Ring.progress] using hw.ringOpen
    · simpa [Ring.progress] using hw.early
    · by_cases hji : j = i
      · subst hji
        simp at hj
      · simpa using hw.done j data (by simpa [hji] using hj)
  | denied i c shut asks =>
    have hpc := workers_open hw shut (i := i)
    rcases asks with ⟨data, hs⟩ | ⟨-, hr⟩
    · rw [hpc] at hs
      cases hs
    · rw [hpc] at hr
      cases hr

end OperatingSystems.SendRecv
