import OperatingSystems.Shell.Command

namespace OperatingSystems.Shell
open Descriptors

inductive Result (κ : Type)
  | done (status : Int) (env : Env) (dir : κ)
  | ended

-- the status that a parent gets of a child with this result
def Result.childStatus {κ : Type} : Result κ → Int
  | .done status _ _ => status % 256
  | .ended => shellExitStatus % 256

def Io.Fresh (io : Io) (id : Place) : Prop :=
  ∀ writes, io.stdin ≠ some (.pipe id writes) ∧ io.stdout ≠ some (.pipe id writes)

inductive Eval {σ κ : Type} (simple : Simple σ κ) :
    Command σ → Io → Env → κ → Result κ → Prop
  | returns {scmd io env dir status env' dir'} :
      simple scmd env dir io = .returned status env' dir' →
      Eval simple (.simple scmd) io env dir (.done status env' dir')
  | exits {scmd io env dir} : simple scmd env dir io = .exited →
      Eval simple (.simple scmd) io env dir .ended
  | sequential {cmd1 cmd2 io env dir status env' dir' r} :
      Eval simple cmd1 io env dir (.done status env' dir') → Eval simple cmd2 io env' dir' r →
      Eval simple (.sequential cmd1 cmd2) io env dir r
  | sequentialEnds {cmd1 cmd2 io env dir} : Eval simple cmd1 io env dir .ended →
      Eval simple (.sequential cmd1 cmd2) io env dir .ended
  | zeroRuns {cmd1 cmd2 io env dir env' dir' r} :
      Eval simple cmd1 io env dir (.done 0 env' dir') → Eval simple cmd2 io env' dir' r →
      Eval simple (.conditionalZero cmd1 cmd2) io env dir r
  | zeroStops {cmd1 cmd2 io env dir status env' dir'} :
      Eval simple cmd1 io env dir (.done status env' dir') → status ≠ 0 →
      Eval simple (.conditionalZero cmd1 cmd2) io env dir (.done status env' dir')
  | zeroEnds {cmd1 cmd2 io env dir} : Eval simple cmd1 io env dir .ended →
      Eval simple (.conditionalZero cmd1 cmd2) io env dir .ended
  | nzeroRuns {cmd1 cmd2 io env dir status env' dir' r} :
      Eval simple cmd1 io env dir (.done status env' dir') → status ≠ 0 →
      Eval simple cmd2 io env' dir' r → Eval simple (.conditionalNzero cmd1 cmd2) io env dir r
  | nzeroStops {cmd1 cmd2 io env dir env' dir'} :
      Eval simple cmd1 io env dir (.done 0 env' dir') →
      Eval simple (.conditionalNzero cmd1 cmd2) io env dir (.done 0 env' dir')
  | nzeroEnds {cmd1 cmd2 io env dir} : Eval simple cmd1 io env dir .ended →
      Eval simple (.conditionalNzero cmd1 cmd2) io env dir .ended
  | parallel {cmd1 cmd2 io env dir r1 r2} :
      Eval simple cmd1 io env dir r1 → Eval simple cmd2 io env dir r2 →
      Eval simple (.parallel cmd1 cmd2) io env dir (.done r2.childStatus env dir)
  | pipe {cmd1 cmd2 io env dir r1 r2} {id : Place} : io.Fresh id →
      Eval simple cmd1 { io with stdout := some (.pipe id true) } env dir r1 →
      Eval simple cmd2 { io with stdin := some (.pipe id false) } env dir r2 →
      Eval simple (.pipe cmd1 cmd2) io env dir (.done r2.childStatus env dir)

structure Calls.Succeed (calls : Calls) : Prop where
  pipes : calls.pipes
  fork1 : calls.fork1
  fork2 : calls.fork2
  killed1 : ¬ calls.killed1
  killed2 : ¬ calls.killed2

inductive Matches {κ : Type} (p : Process κ) : Result κ → Outcome κ → Prop
  | done {status p'} : p'.children = p.children → p'.reports = p.reports →
      (∀ n, lookup p'.table n = lookup p.table n) →
      Matches p (.done status p'.env p'.dir) (.returned status p')
  | ended : Matches p .ended (.exited shellExitStatus)

structure Ready {κ : Type} (p : Process κ) (place : Place) : Prop where
  stdin : lookup p.table 0 ≠ none
  stdout : lookup p.table 1 ≠ none
  older : ∀ n id writes, lookup p.table n = some (.pipe id writes) → id.length < place.length

section
variable {κ σ : Type} {p p' : Process κ} {place : Place} {simple : Simple σ κ}

theorem matches_trans {r : Result κ} {o : Outcome κ} (h : Matches p' r o)
    (hchildren : p'.children = p.children) (hreports : p'.reports = p.reports)
    (htable : ∀ n, lookup p'.table n = lookup p.table n) : Matches p r o := by
  cases h with
  | done hc hr ht =>
    exact .done (hc.trans hchildren) (hr.trans hreports) fun n => (ht n).trans (htable n)
  | ended => exact .ended

theorem matches_exitCode {r : Result κ} {o : Outcome κ} (h : Matches p r o) :
    o.exitCode = r.childStatus := by
  cases h <;> rfl

theorem ready_below (h : Ready p place) (second : Bool) : Ready p (second :: place) :=
  ⟨h.stdin, h.stdout, fun n id writes hn => Nat.lt_succ_of_lt (h.older n id writes hn)⟩

theorem ready_congr (h : Ready p place) (htable : ∀ n, lookup p'.table n = lookup p.table n) :
    Ready p' place := by
  refine ⟨by rw [htable]; exact h.stdin, by rw [htable]; exact h.stdout, fun n id writes hn => ?_⟩
  rw [htable] at hn
  exact h.older n id writes hn

theorem ready_fresh (h : Ready p place) : p.io.Fresh place := by
  intro writes
  exact ⟨fun hn => Nat.lt_irrefl _ (h.older 0 place writes hn),
    fun hn => Nat.lt_irrefl _ (h.older 1 place writes hn)⟩

theorem io_congr (htable : ∀ n, lookup p'.table n = lookup p.table n) : p'.io = p.io := by
  simp only [Process.io, htable]

theorem waited_succeeds {killed : Bool} (h : ¬ killed) (o : Outcome κ) :
    o.waited killed = some o.exitCode := if_neg h

variable {calls : Calls} {cmd1 cmd2 : Process κ → Outcome κ} {level : Nat}

theorem runInParallel_matches (h : calls.Succeed) {r : Result κ}
    (hright : Matches p.copy r (cmd2 p.copy)) :
    Matches p (.done r.childStatus p.env p.dir) (runInParallel calls cmd1 cmd2 level place p) := by
  rw [runInParallel, if_pos h.fork1, if_pos h.fork2, waited_succeeds h.killed2,
    matches_exitCode hright]
  exact .done (waited_children p place) rfl fun _ => rfl

theorem runOnPipe_matches (h : calls.Succeed) {r : Result κ}
    (hright : Matches (p.makePipe calls level place).reader r
      (cmd2 (p.makePipe calls level place).reader)) :
    Matches p (.done r.childStatus p.env p.dir) (runOnPipe calls cmd1 cmd2 level place p) := by
  rw [runOnPipe, if_pos h.fork1, if_pos h.fork2, waited_succeeds h.killed2,
    matches_exitCode hright]
  have hlookup := closed_lookup p level place h.pipes
  have hchildren := waited_children (p.makePipe calls level place).closed place
  rw [makePipe_pipes h.pipes] at hlookup hchildren ⊢
  exact Matches.done (p := p) hchildren rfl hlookup

theorem copy_ready (h : Ready p place) (second : Bool) : Ready p.copy (second :: place) :=
  ready_congr (ready_below h second) fun _ => rfl

theorem ready_piped (h : Ready p place) {fd : Nat} {writes : Bool}
    (htable : ∀ n, lookup p'.table n = if n = fd then some (.pipe place writes) else lookup p.table n)
    (second : Bool) : Ready p' (second :: place) := by
  refine ⟨?_, ?_, fun n id writes' hn => ?_⟩
  · rw [htable]
    split
    · exact Option.some_ne_none _
    · exact h.stdin
  · rw [htable]
    split
    · exact Option.some_ne_none _
    · exact h.stdout
  · rw [htable] at hn
    split at hn
    · cases hn
      exact Nat.lt_succ_self _
    · exact Nat.lt_succ_of_lt (h.older n id writes' hn)

theorem writer_io (h : calls.pipes) (hp : Ready p place) :
    (p.makePipe calls level place).writer.io = { p.io with stdout := some (.pipe place true) } := by
  simp only [Process.io, writer_lookup h hp.stdout]
  rfl

theorem reader_io (h : calls.pipes) (hp : Ready p place) :
    (p.makePipe calls level place).reader.io = { p.io with stdin := some (.pipe place false) } := by
  simp only [Process.io, reader_lookup h hp.stdin]
  rfl

end

section
variable {κ σ : Type} {simple : Simple σ κ} {calls : Place → Calls}

-- by induction on the tree: both children of a node run from a process that is ready
theorem parseCommand_eval (hcalls : ∀ place, (calls place).Succeed) (c : Command σ) (level : Nat)
    (place : Place) (p : Process κ) (hp : Ready p place) :
    ∃ r, Eval simple c p.io p.env p.dir r ∧
      Matches p r (parseCommand calls simple c level place p) := by
  induction c generalizing level place p with
  | simple scmd =>
    cases hleaf : simple scmd p.env p.dir p.io with
    | returned status env dir =>
      refine ⟨_, .returns hleaf, ?_⟩
      rw [parseCommand, hleaf]
      exact @Matches.done κ p status { p with env := env, dir := dir } rfl rfl fun _ => rfl
    | exited =>
      refine ⟨_, .exits hleaf, ?_⟩
      rw [parseCommand, hleaf]
      exact .ended
  | sequential cmd1 cmd2 ih1 ih2 =>
    obtain ⟨r1, heval1, hmatch1⟩ := ih1 (level + 1) (false :: place) p (ready_below hp false)
    rw [parseCommand]
    generalize parseCommand calls simple cmd1 (level + 1) (false :: place) p = o1 at hmatch1 ⊢
    cases hmatch1 with
    | ended => exact ⟨_, .sequentialEnds heval1, .ended⟩
    | @done status p1 hchildren hreports htable =>
      obtain ⟨r2, heval2, hmatch2⟩ := ih2 (level + 1) (true :: place) p1
        (ready_congr (ready_below hp true) htable)
      rw [io_congr htable] at heval2
      exact ⟨r2, .sequential heval1 heval2, matches_trans hmatch2 hchildren hreports htable⟩
  | conditionalZero cmd1 cmd2 ih1 ih2 =>
    obtain ⟨r1, heval1, hmatch1⟩ := ih1 (level + 1) (false :: place) p (ready_below hp false)
    rw [parseCommand]
    generalize parseCommand calls simple cmd1 (level + 1) (false :: place) p = o1 at hmatch1 ⊢
    cases hmatch1 with
    | ended => exact ⟨_, .zeroEnds heval1, .ended⟩
    | @done status p1 hchildren hreports htable =>
      by_cases hzero : status = 0
      · subst hzero
        obtain ⟨r2, heval2, hmatch2⟩ := ih2 (level + 1) (true :: place) p1
          (ready_congr (ready_below hp true) htable)
        rw [io_congr htable] at heval2
        exact ⟨r2, .zeroRuns heval1 heval2, matches_trans hmatch2 hchildren hreports htable⟩
      · rw [Outcome.andThen, if_neg hzero]
        exact ⟨_, .zeroStops heval1 hzero, .done hchildren hreports htable⟩
  | conditionalNzero cmd1 cmd2 ih1 ih2 =>
    obtain ⟨r1, heval1, hmatch1⟩ := ih1 (level + 1) (false :: place) p (ready_below hp false)
    rw [parseCommand]
    generalize parseCommand calls simple cmd1 (level + 1) (false :: place) p = o1 at hmatch1 ⊢
    cases hmatch1 with
    | ended => exact ⟨_, .nzeroEnds heval1, .ended⟩
    | @done status p1 hchildren hreports htable =>
      by_cases hzero : status = 0
      · subst hzero
        exact ⟨_, .nzeroStops heval1, .done hchildren hreports htable⟩
      · obtain ⟨r2, heval2, hmatch2⟩ := ih2 (level + 1) (true :: place) p1
          (ready_congr (ready_below hp true) htable)
        rw [io_congr htable] at heval2
        rw [Outcome.andThen, if_pos hzero]
        exact ⟨r2, .nzeroRuns heval1 hzero heval2, matches_trans hmatch2 hchildren hreports htable⟩
  | parallel cmd1 cmd2 ih1 ih2 =>
    obtain ⟨r1, heval1, -⟩ := ih1 (level + 1) (false :: place) p.copy (copy_ready hp false)
    obtain ⟨r2, heval2, hmatch2⟩ := ih2 (level + 1) (true :: place) p.copy (copy_ready hp true)
    exact ⟨_, .parallel heval1 heval2, runInParallel_matches (hcalls place) hmatch2⟩
  | pipe cmd1 cmd2 ih1 ih2 =>
    have hpipes := (hcalls place).pipes
    let m := p.makePipe (calls place) level place
    obtain ⟨r1, heval1, -⟩ := ih1 (level + 1) (false :: place) m.writer
      (ready_piped hp (writer_lookup hpipes hp.stdout) false)
    obtain ⟨r2, heval2, hmatch2⟩ := ih2 (level + 1) (true :: place) m.reader
      (ready_piped hp (reader_lookup hpipes hp.stdin) true)
    have henv : m.writer.env = p.env ∧ m.writer.dir = p.dir ∧ m.reader.env = p.env ∧
        m.reader.dir = p.dir := by
      simp only [m, makePipe_pipes hpipes]
      exact ⟨rfl, rfl, rfl, rfl⟩
    rw [writer_io hpipes hp, henv.1, henv.2.1] at heval1
    rw [reader_io hpipes hp, henv.2.2.1, henv.2.2.2] at heval2
    exact ⟨_, .pipe (ready_fresh hp) heval1 heval2, runOnPipe_matches (hcalls place) hmatch2⟩

def Bounded (status : Int) : Prop := -1 ≤ status ∧ status ≤ 255

theorem bounded_zero {status : Int} (h : Bounded status) : status % 256 = 0 ↔ status = 0 := by
  unfold Bounded at h
  omega

theorem childStatus_bounded (r : Result κ) : Bounded r.childStatus := by
  cases r with
  | done status env dir =>
    simp only [Bounded, Result.childStatus]
    omega
  | ended =>
    simp only [Bounded, Result.childStatus, shellExitStatus]
    decide

theorem eval_bounded
    (hsimple : ∀ scmd env dir io status env' dir',
      simple scmd env dir io = .returned status env' dir' → Bounded status)
    {c : Command σ} {io : Io} {env : Env} {dir : κ} {r : Result κ}
    (h : Eval simple c io env dir r) :
    ∀ status env' dir', r = .done status env' dir' → Bounded status := by
  induction h with
  | returns hleaf =>
    rintro status env' dir' ⟨⟩
    exact hsimple _ _ _ _ _ _ _ hleaf
  | exits | sequentialEnds | zeroEnds | nzeroEnds => exact fun _ _ _ hr => nomatch hr
  | sequential _ _ _ ih2 | zeroRuns _ _ _ ih2 | nzeroRuns _ _ _ _ ih2 => exact ih2
  | zeroStops _ _ ih1 | nzeroStops _ ih1 => exact ih1
  | parallel | pipe =>
    rintro status env' dir' ⟨⟩
    exact childStatus_bounded _

theorem start_ready (env : Env) (dir : κ) (stdin stdout : Nat) (others : Table Nat) :
    Ready (Process.start env dir stdin stdout others) [] := by
  refine ⟨Option.some_ne_none _, Option.some_ne_none _, fun n id writes hn => ?_⟩
  simp only [Process.start, lookup, List.getD_eq_getElem?_getD, List.getElem?_map] at hn
  cases hget : (some stdin :: some stdout :: others)[n]? with
  | none => simp [hget] at hn
  | some x => cases x <;> simp [hget] at hn

theorem simpleCommand_bounded (k : Kernel κ) (s : SimpleCommand) (env : Env) (dir : κ) (io : Io)
    (status : Int) (env' : Env) (dir' : κ)
    (h : simpleCommand k s env dir io = .returned status env' dir') : Bounded status := by
  unfold simpleCommand at h
  split at h
  · rename_i r hr
    cases h
    exact parseCommandSimple_status hr
  · cases h
  · cases h

end

def succeeding : Calls := ⟨true, (0, 0), true, true, false, false⟩

end OperatingSystems.Shell
