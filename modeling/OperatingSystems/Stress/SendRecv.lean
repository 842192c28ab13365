import Mathlib.Data.Fintype.Sum
import Mathlib.Tactic.DeriveFintype
import OperatingSystems.Concurrency.Programs

namespace OperatingSystems.SendRecv
open Concurrency

inductive Thread (n : Nat)
  | main
  | worker (i : Fin n)
deriving DecidableEq, Fintype

inductive Chan (n : Nat)
  | main
  | ring (i : Fin n)
deriving DecidableEq, Fintype

inductive WorkerPc
  | receive
  | load (data : Nat)
  | sendMain (data : Nat)
  | sendNext (data : Nat)
  | exit
  | exited
  | failed
deriving DecidableEq

structure Worker where
  start : Bool
  pc : WorkerPc
deriving DecidableEq

-- a loop over the threads or the messages is at its next number
inductive MainPc
  | insert (msg : Nat)
  | start (i : Nat)
  | sleep
  | collect (msg : Nat)
  | stop (i : Nat)
  | join (i : Nat)
  | closeMain
  | closeRing (i : Nat)
  | returned
  | failed
deriving DecidableEq

structure Main where
  pc : MainPc
  msgCheck : Nat → Bool

structure Memory (n : Nat) where
  done : Bool
  exited : Fin n → Bool

abbrev Local {n : Nat} : Thread n → Type
  | .main => Main
  | .worker _ => Worker

section
variable {n : Nat}

def next (i : Fin n) : Fin n :=
  if h : i + 1 < n then ⟨i + 1, h⟩ else ⟨0, i.pos⟩

-- `NULL` is `0`
def Worker.ask (i : Fin n) (l : Worker) : Option (Call (Chan n) Nat) :=
  match l.pc with
  | .receive => some (.receive (if l.start then .main else .ring i))
  | .sendMain data => some (.send .main data)
  | .sendNext data => some (.send (.ring (next i)) data)
  | _ => none

def Worker.received (l : Worker) (data : Nat) : Worker :=
  if data = 0 then
    if l.start then { start := false, pc := .receive } else { l with pc := .exit }
  else { l with pc := .load data }

-- a failed assertion stops the thread
def Worker.answer (l : Worker) (r : Result Nat) : Worker :=
  match r.status, r.value, l.pc with
  | .success, some data, .receive => l.received data
  | .success, _, .sendMain _ => { l with pc := .receive }
  | .success, _, .sendNext _ => { l with pc := .receive }
  | _, _, _ => { l with pc := .failed }

def Worker.move (i : Fin n) (l : Worker) (m : Memory n) : Option (Worker × Memory n) :=
  match l.pc with
  | .load data =>
    some ({ l with pc := if m.done then .sendMain data else .sendNext data }, m)
  | .exit =>
    some ({ l with pc := .exited }, { m with exited := Function.update m.exited i true })
  | _ => none

end

section
variable (n numMsgs : Nat)

def MainPc.closeFrom (i : Nat) : MainPc := if i < n then .closeRing i else .returned

def MainPc.joinFrom (i : Nat) : MainPc := if i < n then .join i else .closeMain

def MainPc.stopFrom (i : Nat) : MainPc := if i < n then .stop i else .joinFrom n 0

def MainPc.collectFrom (msg : Nat) : MainPc :=
  if msg ≤ numMsgs then .collect msg else .stopFrom n 0

def MainPc.startFrom (i : Nat) : MainPc := if i < n then .start i else .sleep

def MainPc.insertFrom (msg : Nat) : MainPc :=
  if msg ≤ numMsgs then .insert msg else .startFrom n 0

end

section
variable {n : Nat}

def ringAt (i : Nat) : Option (Chan n) := if h : i < n then some (.ring ⟨i, h⟩) else none

def Main.ask (l : Main) : Option (Call (Chan n) Nat) :=
  match l.pc with
  | .insert msg => some (.send .main msg)
  | .start _ => some (.send .main 0)
  | .collect _ => some (.receive .main)
  | .stop i => (ringAt i).map (.send · 0)
  | .closeMain => some (.close .main)
  | .closeRing i => (ringAt i).map .close
  | _ => none

variable (n) (numMsgs : Nat)

def Main.collected (l : Main) (msg data : Nat) : Main :=
  if 1 ≤ data ∧ data ≤ numMsgs ∧ l.msgCheck data = false then
    { pc := .collectFrom n numMsgs (msg + 1), msgCheck := Function.update l.msgCheck data true }
  else { l with pc := .failed }

def Main.answer (l : Main) (r : Result Nat) : Main :=
  match r.status, r.value, l.pc with
  | .success, _, .insert msg => { l with pc := .insertFrom n numMsgs (msg + 1) }
  | .success, _, .start i => { l with pc := .startFrom n (i + 1) }
  | .success, some data, .collect msg => l.collected n numMsgs msg data
  | .success, _, .stop i => { l with pc := .stopFrom n (i + 1) }
  | .success, _, .closeMain => { l with pc := .closeFrom n 0 }
  | .success, _, .closeRing i => { l with pc := .closeFrom n (i + 1) }
  | _, _, _ => { l with pc := .failed }

variable {n}

def Main.move (l : Main) (m : Memory n) : Option (Main × Memory n) :=
  match l.pc with
  | .sleep => some ({ l with pc := .collectFrom n numMsgs 1 }, { m with done := true })
  | .join i =>
    if h : i < n then
      if m.exited ⟨i, h⟩ then some ({ l with pc := .joinFrom n (i + 1) }, m) else none
    else none
  | _ => none

variable (n)

-- `run_stress_send_recv` with the messages that `load` makes
def program : Program (Memory n) (Thread n) Local (Chan n) Nat where
  init l m := (l .main = { pc := .insertFrom n numMsgs 1, msgCheck := fun _ => false }) ∧
    (∀ i, l (.worker i) = { start := true, pc := .receive }) ∧
      m = { done := false, exited := fun _ => false }
  ask
    | .main => Main.ask
    | .worker i => Worker.ask i
  answer
    | .main => Main.answer n numMsgs
    | .worker _ => Worker.answer
  move
    | .main => Main.move numMsgs
    | .worker i => Worker.move i

end

abbrev Ring (n : Nat) := World (Memory n) (Thread n) Local (Chan n) Nat

section
variable {n numMsgs b : Nat} {w w' : Ring n}

inductive Main.Sends (n numMsgs : Nat) : MainPc → Chan n → Nat → MainPc → Prop
  | insert (msg : Nat) : Sends n numMsgs (.insert msg) .main msg (.insertFrom n numMsgs (msg + 1))
  | start (i : Nat) : Sends n numMsgs (.start i) .main 0 (.startFrom n (i + 1))
  | stop (i : Fin n) : Sends n numMsgs (.stop i) (.ring i) 0 (.stopFrom n (i + 1))

inductive Main.Closes (n : Nat) : MainPc → Chan n → MainPc → Prop
  | main : Closes n .closeMain .main (.closeFrom n 0)
  | ring (i : Fin n) : Closes n (.closeRing i) (.ring i) (.closeFrom n (i + 1))

inductive Worker.Sends (i : Fin n) (data : Nat) : WorkerPc → Chan n → Prop
  | main : Sends i data (.sendMain data) .main
  | next : Sends i data (.sendNext data) (.ring (next i))

def Worker.source (i : Fin n) (l : Worker) : Chan n := if l.start then .main else .ring i

inductive Step (n numMsgs b : Nat) (w : Ring n) : Ring n → Prop
  | mainSend (c : Chan n) (v : Nat) (pc : MainPc)
      (sends : Main.Sends n numMsgs (w.thread .main).pc c v pc) (room : (w.queue c).length < b) :
      Step n numMsgs b w ({ w with queue := Function.update w.queue c (w.queue c ++ [v]) }.set .main
        { w.thread .main with pc := pc })
  | collect (msg v : Nat) (rest : List Nat) (pc : (w.thread .main).pc = .collect msg)
      (head : w.queue .main = v :: rest) :
      Step n numMsgs b w ({ w with queue := Function.update w.queue .main rest }.set .main
        ((w.thread .main).collected n numMsgs msg v))
  | sleep (pc : (w.thread .main).pc = .sleep) :
      Step n numMsgs b w ({ w with memory := { w.memory with done := true } }.set .main
        { w.thread .main with pc := .collectFrom n numMsgs 1 })
  | join (i : Fin n) (pc : (w.thread .main).pc = .join i) (exited : w.memory.exited i = true) :
      Step n numMsgs b w (w.set .main { w.thread .main with pc := .joinFrom n (i + 1) })
  | close (c : Chan n) (pc : MainPc) (closes : Main.Closes n (w.thread .main).pc c pc)
      (isOpen : w.closed c = false) :
      Step n numMsgs b w ({ w with closed := Function.update w.closed c true }.set .main
        { w.thread .main with pc := pc })
  | mainDenied (c : Chan n) (shut : w.closed c = true)
      (asks : (∃ v pc, Main.Sends n numMsgs (w.thread .main).pc c v pc) ∨
        (c = .main ∧ ∃ msg, (w.thread .main).pc = .collect msg) ∨
          ∃ pc, Main.Closes n (w.thread .main).pc c pc) :
      Step n numMsgs b w (w.set .main { w.thread .main with pc := .failed })
  | receive (i : Fin n) (v : Nat) (rest : List Nat) (pc : (w.thread (.worker i)).pc = .receive)
      (head : w.queue ((w.thread (.worker i)).source i) = v :: rest) :
      Step n numMsgs b w
        ({ w with queue := Function.update w.queue ((w.thread (.worker i)).source i) rest }.set
          (.worker i) ((w.thread (.worker i)).received v))
  | load (i : Fin n) (data : Nat) (pc : (w.thread (.worker i)).pc = .load data) :
      Step n numMsgs b w (w.set (.worker i) { w.thread (.worker i) with
        pc := if w.memory.done then .sendMain data else .sendNext data })
  | send (i : Fin n) (data : Nat) (c : Chan n)
      (sends : Worker.Sends i data (w.thread (.worker i)).pc c) (room : (w.queue c).length < b) :
      Step n numMsgs b w
        ({ w with queue := Function.update w.queue c (w.queue c ++ [data]) }.set (.worker i)
          { w.thread (.worker i) with pc := .receive })
  | exit (i : Fin n) (pc : (w.thread (.worker i)).pc = .exit) :
      Step n numMsgs b w
        ({ w with memory := { w.memory with exited := Function.update w.memory.exited i true } }.set
          (.worker i) { w.thread (.worker i) with pc := .exited })
  | denied (i : Fin n) (c : Chan n) (shut : w.closed c = true)
      (asks : (∃ data, Worker.Sends i data (w.thread (.worker i)).pc c) ∨
        (c = (w.thread (.worker i)).source i ∧ (w.thread (.worker i)).pc = .receive)) :
      Step n numMsgs b w (w.set (.worker i) { w.thread (.worker i) with pc := .failed })

theorem program_plain (t : Thread n) (l : Local t) (k : Call (Chan n) Nat)
    (h : (program n numMsgs).ask t l = some k) : k.plain := by
  cases t with
  | main =>
    simp only [program, Main.ask] at h
    split at h
    · cases h; trivial
    · cases h; trivial
    · cases h; trivial
    · obtain ⟨c, -, rfl⟩ := Option.map_eq_some_iff.mp h; trivial
    · cases h; trivial
    · obtain ⟨c, -, rfl⟩ := Option.map_eq_some_iff.mp h; trivial
    · cases h
  | worker i =>
    simp only [program, Worker.ask] at h
    split at h <;> cases h <;> trivial

theorem ringAt_eq {i : Nat} {c : Chan n} (h : ringAt i = some c) : ∃ j : Fin n, i = j ∧ c = .ring j := by
  simp only [ringAt] at h
  split at h
  · cases h
    exact ⟨⟨i, ‹_›⟩, rfl, rfl⟩
  · cases h

section
variable {l : Main}

theorem answer_sends {c : Chan n} {v : Nat} {pc : MainPc} (h : Main.Sends n numMsgs l.pc c v pc) :
    l.answer n numMsgs ⟨.success, none, some v⟩ = { l with pc := pc } := by
  generalize hp : l.pc = p at h
  cases h <;> simp [Main.answer, hp]

theorem answer_closes {c : Chan n} {pc : MainPc} (h : Main.Closes n l.pc c pc) :
    l.answer n numMsgs ⟨.success, none, none⟩ = { l with pc := pc } := by
  generalize hp : l.pc = p at h
  cases h <;> simp [Main.answer, hp]

theorem answer_collects {msg v : Nat} (h : l.pc = .collect msg) :
    l.answer n numMsgs ⟨.success, none, some v⟩ = l.collected n numMsgs msg v := by
  simp [Main.answer, h]

theorem main_ask (numMsgs : Nat) {k : Call (Chan n) Nat} (h : Main.ask l = some k) :
    (∃ c v pc, k = .send c v ∧ Main.Sends n numMsgs l.pc c v pc) ∨
      (∃ msg, k = .receive .main ∧ l.pc = .collect msg) ∨
        ∃ c pc, k = .close c ∧ Main.Closes n l.pc c pc := by
  simp only [Main.ask] at h
  split at h
  · rename_i msg hpc
    cases h
    exact .inl ⟨_, _, _, rfl, by rw [hpc]; exact .insert msg⟩
  · rename_i i hpc
    cases h
    exact .inl ⟨_, _, _, rfl, by rw [hpc]; exact .start i⟩
  · rename_i msg hpc
    cases h
    exact .inr (.inl ⟨msg, rfl, hpc⟩)
  · rename_i i hpc
    obtain ⟨c, hc, rfl⟩ := Option.map_eq_some_iff.mp h
    obtain ⟨j, rfl, rfl⟩ := ringAt_eq hc
    exact .inl ⟨_, _, _, rfl, by rw [hpc]; exact .stop j⟩
  · rename_i hpc
    cases h
    exact .inr (.inr ⟨_, _, rfl, by rw [hpc]; exact .main⟩)
  · rename_i i hpc
    obtain ⟨c, hc, rfl⟩ := Option.map_eq_some_iff.mp h
    obtain ⟨j, rfl, rfl⟩ := ringAt_eq hc
    exact .inr (.inr ⟨_, _, rfl, by rw [hpc]; exact .ring j⟩)
  · cases h

end

section
variable {l : Worker} {i : Fin n}

theorem worker_ask {k : Call (Chan n) Nat} (h : Worker.ask i l = some k) :
    (k = .receive (l.source i) ∧ l.pc = .receive) ∨
      ∃ c data, k = .send c data ∧ Worker.Sends i data l.pc c := by
  simp only [Worker.ask] at h
  split at h
  · rename_i hpc
    cases h
    exact .inl ⟨rfl, hpc⟩
  · rename_i data hpc
    cases h
    exact .inr ⟨_, _, rfl, by rw [hpc]; exact .main⟩
  · rename_i data hpc
    cases h
    exact .inr ⟨_, _, rfl, by rw [hpc]; exact .next⟩
  · cases h

theorem answer_receives {v : Nat} (h : l.pc = .receive) :
    l.answer ⟨.success, none, some v⟩ = l.received v := by
  simp [Worker.answer, h]

theorem answer_forwards {c : Chan n} {data : Nat} (h : Worker.Sends i data l.pc c) :
    l.answer ⟨.success, none, some data⟩ = { l with pc := .receive } := by
  generalize hp : l.pc = p at h
  cases h <;> simp [Worker.answer, hp]

end

theorem took_step (h : Took (program n numMsgs) (fun _ => b) w w') : Step n numMsgs b w w' := by
  cases h with
  | @move t l memory ask moved =>
    cases t with
    | main =>
      simp only [program, Main.move] at moved
      split at moved
      · rename_i hpc
        cases moved
        exact .sleep hpc
      · rename_i i hpc
        split at moved
        · rename_i hi
          split at moved
          · cases moved
            exact .join ⟨i, hi⟩ hpc ‹_›
          · cases moved
        · cases moved
      · cases moved
    | worker i =>
      simp only [program, Worker.move] at moved
      split at moved
      · rename_i data hpc
        cases moved
        exact .load i data hpc
      · rename_i hpc
        cases moved
        exact .exit i hpc
      · cases moved
  | @call t k r queue closed ask effect =>
    cases t with
    | main =>
      have hdenied : (program n numMsgs).answer .main (w.thread .main) ⟨.closedError, none, none⟩ =
          { w.thread .main with pc := .failed } := by simp [program, Main.answer]
      rcases main_ask numMsgs ask with ⟨c, v, pc, rfl, hs⟩ | ⟨msg, rfl, hpc⟩ | ⟨c, pc, rfl, hc⟩
      · cases effect with
        | send c v room =>
          rw [show (program n numMsgs).answer .main _ _ = _ from answer_sends hs]
          exact .mainSend c v pc hs room
        | denied call shut =>
          rw [hdenied]
          rcases call with ⟨v', hk⟩ | hk <;> cases hk
          exact .mainDenied c shut (.inl ⟨v, pc, hs⟩)
      · cases effect with
        | receive c head =>
          rw [show (program n numMsgs).answer .main _ _ = _ from answer_collects hpc]
          exact .collect msg _ _ hpc head
        | denied call shut =>
          rw [hdenied]
          rcases call with ⟨v', hk⟩ | hk <;> cases hk
          exact .mainDenied .main shut (.inr (.inl ⟨rfl, msg, hpc⟩))
      · cases effect with
        | denied call shut => rcases call with ⟨v', hk⟩ | hk <;> cases hk
        | close c isOpen =>
          rw [show (program n numMsgs).answer .main _ _ = _ from answer_closes hc]
          exact .close c pc hc isOpen
        | closeAgain c shut =>
          rw [hdenied]
          exact .mainDenied c shut (.inr (.inr ⟨pc, hc⟩))
    | worker i =>
      have hdenied : (program n numMsgs).answer (.worker i) (w.thread (.worker i))
          ⟨.closedError, none, none⟩ = { w.thread (.worker i) with pc := .failed } := by
        simp [program, Worker.answer]
      rcases worker_ask ask with ⟨rfl, hpc⟩ | ⟨c, data, rfl, hs⟩
      · cases effect with
        | receive c head =>
          rw [show (program n numMsgs).answer (.worker i) _ _ = _ from answer_receives hpc]
          exact .receive i _ _ hpc head
        | denied call shut =>
          rw [hdenied]
          rcases call with ⟨v', hk⟩ | hk <;> cases hk
          exact .denied i _ shut (.inr ⟨rfl, hpc⟩)
      · cases effect with
        | send c v room =>
          rw [show (program n numMsgs).answer (.worker i) _ _ = _ from answer_forwards hs]
          exact .send i data c hs room
        | denied call shut =>
          rw [hdenied]
          rcases call with ⟨v', hk⟩ | hk <;> cases hk
          exact .denied i c shut (.inl ⟨data, hs⟩)

end

end OperatingSystems.SendRecv
