import OperatingSystems.Shell.Command

namespace OperatingSystems.Shell
open Descriptors

structure Event (σ κ : Type) where
  command : Command σ
  level : Nat
  place : Place
  process : Process κ

section
variable {σ κ : Type}

def Event.outcome (calls : Place → Calls) (simple : Simple σ κ) (e : Event σ κ) : Outcome κ :=
  parseCommand calls simple e.command e.level e.place e.process

-- the calls that one call makes, in its own process or in a child that may be killed
inductive Starts (calls : Place → Calls) (simple : Simple σ κ) :
    Event σ κ → Bool → Event σ κ → Prop
  | sequential1 {cmd1 cmd2 level place p} :
      Starts calls simple ⟨.sequential cmd1 cmd2, level, place, p⟩ false
        ⟨cmd1, level + 1, false :: place, p⟩
  | sequential2 {cmd1 cmd2 level place p status p'} :
      parseCommand calls simple cmd1 (level + 1) (false :: place) p = .returned status p' →
      Starts calls simple ⟨.sequential cmd1 cmd2, level, place, p⟩ false
        ⟨cmd2, level + 1, true :: place, p'⟩
  | zero1 {cmd1 cmd2 level place p} :
      Starts calls simple ⟨.conditionalZero cmd1 cmd2, level, place, p⟩ false
        ⟨cmd1, level + 1, false :: place, p⟩
  | zero2 {cmd1 cmd2 level place p p'} :
      parseCommand calls simple cmd1 (level + 1) (false :: place) p = .returned 0 p' →
      Starts calls simple ⟨.conditionalZero cmd1 cmd2, level, place, p⟩ false
        ⟨cmd2, level + 1, true :: place, p'⟩
  | nzero1 {cmd1 cmd2 level place p} :
      Starts calls simple ⟨.conditionalNzero cmd1 cmd2, level, place, p⟩ false
        ⟨cmd1, level + 1, false :: place, p⟩
  | nzero2 {cmd1 cmd2 level place p status p'} :
      parseCommand calls simple cmd1 (level + 1) (false :: place) p = .returned status p' →
      status ≠ 0 →
      Starts calls simple ⟨.conditionalNzero cmd1 cmd2, level, place, p⟩ false
        ⟨cmd2, level + 1, true :: place, p'⟩
  | parallel1 {cmd1 cmd2 level place p} : (calls place).fork1 →
      Starts calls simple ⟨.parallel cmd1 cmd2, level, place, p⟩ (calls place).killed1
        ⟨cmd1, level + 1, false :: place, p.copy⟩
  | parallel2 {cmd1 cmd2 level place p} : (calls place).fork1 → (calls place).fork2 →
      Starts calls simple ⟨.parallel cmd1 cmd2, level, place, p⟩ (calls place).killed2
        ⟨cmd2, level + 1, true :: place, p.copy⟩
  | pipe1 {cmd1 cmd2 level place p} : (calls place).fork1 →
      Starts calls simple ⟨.pipe cmd1 cmd2, level, place, p⟩ (calls place).killed1
        ⟨cmd1, level + 1, false :: place, (p.makePipe (calls place) level place).writer⟩
  | pipe2 {cmd1 cmd2 level place p} : (calls place).fork1 → (calls place).fork2 →
      Starts calls simple ⟨.pipe cmd1 cmd2, level, place, p⟩ (calls place).killed2
        ⟨cmd2, level + 1, true :: place, (p.makePipe (calls place) level place).reader⟩

-- the calls of a whole evaluation; a child that is killed gets to some of its own only
inductive Executed (calls : Place → Calls) (simple : Simple σ κ) (lived : Place → Prop) :
    Event σ κ → Event σ κ → Prop
  | self {e} : Executed calls simple lived e e
  | started {e e' e'' killed} : Starts calls simple e killed e' →
      Executed calls simple lived e' e'' → (killed = true → lived e''.place) →
      Executed calls simple lived e e''

-- a pipe or parallel node in which a call fails or the right child does not exit
def Fails (calls : Place → Calls) (e : Event σ κ) : Prop :=
  match e.command with
  | .parallel _ _ =>
    ¬ (calls e.place).fork1 ∨ ¬ (calls e.place).fork2 ∨ (calls e.place).killed2
  | .pipe _ _ =>
    ¬ (calls e.place).pipes ∨ ¬ (calls e.place).fork1 ∨ ¬ (calls e.place).fork2 ∨
      (calls e.place).killed2
  | _ => False

structure Clean (p p' : Process κ) : Prop where
  pipes : ∀ n id writes, lookup p'.table n = some (.pipe id writes) →
    lookup p.table n = some (.pipe id writes)
  children : p'.children = p.children

structure Handled (calls : Place → Calls) (simple : Simple σ κ) (e : Event σ κ) : Prop where
  reported : ∀ status p', e.outcome calls simple = .returned status p' → Fails calls e → status ≠ 0
  clean : ∀ status p', e.outcome calls simple = .returned status p' → Clean e.process p'

-- both children are forked and `waitpid` reports an exit of the right one, without a pipe a failure
def Survives (calls : Place → Calls) (simple : Simple σ κ) (e : Event σ κ) : Prop :=
  match e.command with
  | .parallel _ _ =>
    (calls e.place).fork1 ∧ (calls e.place).fork2 ∧ ¬ (calls e.place).killed2
  | .pipe _ cmd2 =>
    (calls e.place).fork1 ∧ (calls e.place).fork2 ∧ ¬ (calls e.place).killed2 ∧
      ((calls e.place).pipes ∨
        (parseCommand calls simple cmd2 (e.level + 1) (true :: e.place)
          (e.process.makePipe (calls e.place) e.level e.place).reader).exitCode ≠ 0)
  | _ => True

def Forks (e : Event σ κ) : Prop :=
  match e.command with
  | .parallel _ _ => True
  | .pipe _ _ => True
  | _ => False

theorem Clean.refl (p : Process κ) : Clean p p := ⟨fun _ _ _ h => h, rfl⟩

theorem Clean.trans {p p' p'' : Process κ} (h : Clean p p') (h' : Clean p' p'') : Clean p p'' :=
  ⟨fun n id writes hn => h.pipes n id writes (h'.pipes n id writes hn),
    h'.children.trans h.children⟩

variable {calls : Calls} {level : Nat} {place : Place} {p : Process κ}

theorem waited_clean {q : Process κ} (h : Clean p q) :
    Clean p ((((q.forked (false :: place)).forked (true :: place)).waitpid (false :: place)).waitpid
      (true :: place)) :=
  ⟨h.pipes, (waited_children q place).trans h.children⟩

theorem closed_clean : Clean p (p.makePipe calls level place).closed := by
  by_cases hpipes : calls.pipes
  · refine ⟨fun n id writes hn => ?_, ?_⟩
    · rwa [closed_lookup _ _ _ hpipes] at hn
    · rw [makePipe_pipes hpipes]
      rfl
  · rw [makePipe_fails hpipes]
    refine ⟨fun n id writes hn => ?_, rfl⟩
    rw [Piped.closed, lookup_close, lookup_close] at hn
    split at hn
    · cases hn
    · split at hn
      · cases hn
      · exact hn

theorem runInParallel_forks (cmd1 cmd2 : Process κ → Outcome κ) (level : Nat) (place : Place)
    (p : Process κ) (h1 : calls.fork1) (h2 : calls.fork2) :
    runInParallel calls cmd1 cmd2 level place p =
      .returned (((cmd2 p.copy).waited calls.killed2).getD 0)
        ((((p.forked (false :: place)).forked (true :: place)).waitpid (false :: place)).waitpid
          (true :: place)) := by
  rw [runInParallel, if_pos h1, if_pos h2]

theorem runInParallel_unforked (cmd1 cmd2 : Process κ → Outcome κ) (level : Nat) (place : Place)
    (p : Process κ) (h : ¬ (calls.fork1 ∧ calls.fork2)) :
    ∃ p', runInParallel calls cmd1 cmd2 level place p = .returned 0 p' := by
  unfold runInParallel
  by_cases h1 : calls.fork1
  · have h2 : ¬ calls.fork2 := fun h2 => h ⟨h1, h2⟩
    simp only [if_pos h1, if_neg h2]
    exact ⟨_, rfl⟩
  · simp only [if_neg h1]
    exact ⟨_, rfl⟩

theorem runOnPipe_forks (cmd1 cmd2 : Process κ → Outcome κ) (level : Nat) (place : Place)
    (p : Process κ) (h1 : calls.fork1) (h2 : calls.fork2) :
    runOnPipe calls cmd1 cmd2 level place p =
      .returned (((cmd2 (p.makePipe calls level place).reader).waited calls.killed2).getD 0)
        (((((p.makePipe calls level place).closed.forked (false :: place)).forked
          (true :: place)).waitpid (false :: place)).waitpid (true :: place)) := by
  rw [runOnPipe, if_pos h1, if_pos h2]

theorem runOnPipe_unforked (cmd1 cmd2 : Process κ → Outcome κ) (level : Nat) (place : Place)
    (p : Process κ) (h : ¬ (calls.fork1 ∧ calls.fork2)) :
    ∃ p', runOnPipe calls cmd1 cmd2 level place p = .returned 0 p' := by
  unfold runOnPipe
  by_cases h1 : calls.fork1
  · have h2 : ¬ calls.fork2 := fun h2 => h ⟨h1, h2⟩
    simp only [if_pos h1, if_neg h2]
    exact ⟨_, rfl⟩
  · simp only [if_neg h1]
    exact ⟨_, rfl⟩

end

section
variable {σ κ : Type} {calls : Place → Calls} {simple : Simple σ κ} {cmd1 cmd2 : Command σ}
  {level : Nat} {place : Place} {p : Process κ}

theorem parallel_handled : Handled calls simple ⟨.parallel cmd1 cmd2, level, place, p⟩ ↔
    Survives calls simple ⟨.parallel cmd1 cmd2, level, place, p⟩ := by
  constructor
  · intro h
    by_cases hforks : (calls place).fork1 ∧ (calls place).fork2
    · have hout := runInParallel_forks (parseCommand calls simple cmd1 (level + 1) (false :: place))
        (parseCommand calls simple cmd2 (level + 1) (true :: place)) level place p
        hforks.1 hforks.2
      refine ⟨hforks.1, hforks.2, fun hkilled => ?_⟩
      rw [Outcome.waited, if_pos hkilled] at hout
      exact h.reported 0 _ hout (.inr (.inr hkilled)) rfl
    · obtain ⟨p', hp'⟩ := runInParallel_unforked
        (parseCommand calls simple cmd1 (level + 1) (false :: place))
        (parseCommand calls simple cmd2 (level + 1) (true :: place)) level place p hforks
      refine absurd rfl (h.reported 0 p' hp' ?_)
      simp only [Fails]
      tauto
  · rintro ⟨h1, h2, hkilled⟩
    refine ⟨fun status p' _ hfails => ?_, fun status p' hout => ?_⟩
    · rcases hfails with hf | hf | hf
      · exact absurd h1 hf
      · exact absurd h2 hf
      · exact absurd hf hkilled
    · rw [Event.outcome, parseCommand, runInParallel_forks _ _ _ _ _ h1 h2] at hout
      cases hout
      exact waited_clean (Clean.refl p)

theorem pipe_handled : Handled calls simple ⟨.pipe cmd1 cmd2, level, place, p⟩ ↔
    Survives calls simple ⟨.pipe cmd1 cmd2, level, place, p⟩ := by
  constructor
  · intro h
    by_cases hforks : (calls place).fork1 ∧ (calls place).fork2
    · have hout := runOnPipe_forks (parseCommand calls simple cmd1 (level + 1) (false :: place))
        (parseCommand calls simple cmd2 (level + 1) (true :: place)) level place p hforks.1 hforks.2
      have hkilled : ¬ (calls place).killed2 := by
        intro hkilled
        rw [Outcome.waited, if_pos hkilled] at hout
        exact h.reported 0 _ hout (.inr (.inr (.inr hkilled))) rfl
      refine ⟨hforks.1, hforks.2, hkilled, ?_⟩
      by_cases hpipes : (calls place).pipes
      · exact .inl hpipes
      · rw [Outcome.waited, if_neg hkilled] at hout
        exact .inr (h.reported _ _ hout (.inl hpipes))
    · obtain ⟨p', hp'⟩ := runOnPipe_unforked
        (parseCommand calls simple cmd1 (level + 1) (false :: place))
        (parseCommand calls simple cmd2 (level + 1) (true :: place)) level place p hforks
      refine absurd rfl (h.reported 0 p' hp' ?_)
      simp only [Fails]
      tauto
  · rintro ⟨h1, h2, hkilled, hright⟩
    have hout := runOnPipe_forks (parseCommand calls simple cmd1 (level + 1) (false :: place))
      (parseCommand calls simple cmd2 (level + 1) (true :: place)) level place p h1 h2
    rw [Outcome.waited, if_neg hkilled] at hout
    refine ⟨fun status p' hreturned hfails => ?_, fun status p' hreturned => ?_⟩
    · cases hout.symm.trans hreturned
      rcases hfails with hf | hf | hf | hf
      · exact hright.resolve_left hf
      · exact absurd h1 hf
      · exact absurd h2 hf
      · exact absurd hf hkilled
    · cases hout.symm.trans hreturned
      exact waited_clean closed_clean

theorem forks_handled {e : Event σ κ} (h : Forks e) :
    Handled calls simple e ↔ Survives calls simple e := by
  obtain ⟨c, level, place, p⟩ := e
  cases c with
  | parallel cmd1 cmd2 => exact parallel_handled
  | pipe cmd1 cmd2 => exact pipe_handled
  | simple | sequential | conditionalZero | conditionalNzero => exact h.elim

theorem andThen_clean {first : Outcome κ} {next : Int → Process κ → Outcome κ}
    (hfirst : ∀ status p', first = .returned status p' → Clean p p')
    (hnext : ∀ status p', first = .returned status p' →
      ∀ status' p'', next status p' = .returned status' p'' → Clean p' p'')
    {status' : Int} {p'' : Process κ} (h : first.andThen next = .returned status' p'') :
    Clean p p'' := by
  cases first with
  | returned status p' => exact (hfirst status p' rfl).trans (hnext status p' rfl status' p'' h)
  | exited code => cases h

variable {lived : Place → Prop}

-- by induction on the tree, along the process that runs its root
theorem parseCommand_clean (c : Command σ) (level : Nat) (place : Place) (p : Process κ)
    (h : ∀ e, Executed calls simple lived ⟨c, level, place, p⟩ e → Forks e →
      Survives calls simple e) {status : Int} {p' : Process κ}
    (hout : parseCommand calls simple c level place p = .returned status p') : Clean p p' := by
  induction c generalizing level place p status p' with
  | simple scmd =>
    rw [parseCommand] at hout
    split at hout
    · cases hout
      exact ⟨fun _ _ _ hn => hn, rfl⟩
    · cases hout
  | sequential cmd1 cmd2 ih1 ih2 =>
    rw [parseCommand] at hout
    refine andThen_clean (fun _ _ h1 => ih1 _ _ _ (fun e he => h e ?_) h1)
      (fun _ _ h1 _ _ h2 => ih2 _ _ _ (fun e he => h e ?_) h2) hout
    · exact .started .sequential1 he (fun hk => nomatch hk)
    · exact .started (.sequential2 h1) he (fun hk => nomatch hk)
  | conditionalZero cmd1 cmd2 ih1 ih2 =>
    rw [parseCommand] at hout
    refine andThen_clean (fun _ _ h1 => ih1 _ _ _ (fun e he => h e ?_) h1)
      (fun status1 p1 h1 _ _ h2 => ?_) hout
    · exact .started .zero1 he (fun hk => nomatch hk)
    · split at h2
      · rename_i hzero
        subst hzero
        exact ih2 _ _ _ (fun e he => h e (.started (.zero2 h1) he (fun hk => nomatch hk))) h2
      · cases h2
        exact Clean.refl p1
  | conditionalNzero cmd1 cmd2 ih1 ih2 =>
    rw [parseCommand] at hout
    refine andThen_clean (fun _ _ h1 => ih1 _ _ _ (fun e he => h e ?_) h1)
      (fun status1 p1 h1 _ _ h2 => ?_) hout
    · exact .started .nzero1 he (fun hk => nomatch hk)
    · split at h2
      · rename_i hzero
        exact ih2 _ _ _ (fun e he => h e (.started (.nzero2 h1 hzero) he (fun hk => nomatch hk))) h2
      · cases h2
        exact Clean.refl p1
  | parallel cmd1 cmd2 => exact (parallel_handled.mpr (h _ .self trivial)).clean status p' hout
  | pipe cmd1 cmd2 => exact (pipe_handled.mpr (h _ .self trivial)).clean status p' hout

theorem failures_handled_iff (calls : Place → Calls) (simple : Simple σ κ) (lived : Place → Prop)
    (c : Command σ) (level : Nat) (p : Process κ) :
    ((∀ e, Executed calls simple lived ⟨c, level, [], p⟩ e → Forks e → Handled calls simple e) ∧
      ∀ status p', parseCommand calls simple c level [] p = .returned status p' → Clean p p') ↔
    ∀ e, Executed calls simple lived ⟨c, level, [], p⟩ e → Forks e → Survives calls simple e := by
  constructor
  · rintro ⟨h, -⟩ e he hf
    exact (forks_handled hf).mp (h e he hf)
  · intro h
    exact ⟨fun e he hf => (forks_handled hf).mpr (h e he hf),
      fun _ _ hout => parseCommand_clean c level [] p h hout⟩

end

def succeeds : Simple Unit Unit := fun _ env dir _ => .returned 0 env dir

def forkFails : Calls := ⟨true, (0, 0), true, false, false, false⟩

-- `a | b` whose second `fork` fails: status zero, both ends of the pipe open and a child left
theorem pipe_unhandled :
    let p := Process.start (fun _ => none) () 0 1 [some 2]
    (∃ p', parseCommand (fun _ => forkFails) succeeds (.pipe (.simple ()) (.simple ())) 0 [] p =
      .returned 0 p' ∧ p'.children = [[false]] ∧
      lookup p'.table 3 = some (.pipe [] false) ∧ lookup p'.table 4 = some (.pipe [] true)) ∧
    ¬ ((∀ e, Executed (fun _ => forkFails) succeeds (fun _ => True)
        ⟨.pipe (.simple ()) (.simple ()), 0, [], p⟩ e → Forks e →
        Handled (fun _ => forkFails) succeeds e) ∧
      ∀ status p', parseCommand (fun _ => forkFails) succeeds (.pipe (.simple ()) (.simple ()))
        0 [] p = .returned status p' → Clean p p') := by
  intro p
  refine ⟨⟨_, rfl, rfl, rfl, rfl⟩, fun h => ?_⟩
  exact (h.1 _ .self trivial).reported 0 _ rfl (.inr (.inr (.inl Bool.false_ne_true))) rfl

end OperatingSystems.Shell
