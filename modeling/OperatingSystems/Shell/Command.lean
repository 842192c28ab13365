import OperatingSystems.Shell.Builtin

namespace OperatingSystems.Shell
open Descriptors

-- `command_t`; `σ` is the type of the simple commands
inductive Command (σ : Type)
  | simple (scmd : σ)
  | sequential (cmd1 cmd2 : Command σ)
  | parallel (cmd1 cmd2 : Command σ)
  | conditionalZero (cmd1 cmd2 : Command σ)
  | conditionalNzero (cmd1 cmd2 : Command σ)
  | pipe (cmd1 cmd2 : Command σ)

-- what the calls at a node do; `garbage` is the content of `pipefd` before `pipe`
structure Calls where
  pipes : Bool
  garbage : Nat × Nat
  fork1 : Bool
  fork2 : Bool
  killed1 : Bool
  killed2 : Bool

structure Io where
  stdin : Option Stream
  stdout : Option Stream

-- a simple command other than `exit` and `quit` returns
inductive Leaf (κ : Type)
  | returned (status : Int) (env : Env) (dir : κ)
  | exited

abbrev Simple (σ κ : Type) := σ → Env → κ → Io → Leaf κ

-- `children` are forked and not waited for, each known by the node that it runs
structure Process (κ : Type) where
  env : Env
  dir : κ
  table : Table Stream
  children : List Place
  reports : List String

inductive Outcome (κ : Type)
  | returned (status : Int) (p : Process κ)
  | exited (code : Int)

structure Piped (κ : Type) where
  process : Process κ
  read : Nat
  write : Nat

section
variable {κ σ : Type}

namespace Process

def io (p : Process κ) : Io := ⟨lookup p.table 0, lookup p.table 1⟩

def report (p : Process κ) (str : String) (level : Nat) : Process κ :=
  { p with reports := p.reports ++ [parseError str level] }

-- the copy that `fork` makes
def copy (p : Process κ) : Process κ := { p with children := [], reports := [] }

def forked (p : Process κ) (child : Place) : Process κ := { p with children := child :: p.children }

def waitpid (p : Process κ) (child : Place) : Process κ :=
  { p with children := p.children.erase child }

def makePipe (p : Process κ) (calls : Calls) (level : Nat) (place : Place) : Piped κ :=
  if calls.pipes then
    let table := allocate p.table (.pipe place false)
    ⟨{ p with table := allocate table (.pipe place true) }, lowest p.table, lowest table⟩
  else ⟨p.report "Pipe failed" level, calls.garbage.1, calls.garbage.2⟩

end Process

namespace Piped

def writer (m : Piped κ) : Process κ :=
  { m.process.copy with table := close (dup2 (close m.process.table m.read) m.write 1) m.write }

def reader (m : Piped κ) : Process κ :=
  { m.process.copy with table := close (dup2 (close m.process.table m.write) m.read 0) m.read }

def closed (m : Piped κ) : Process κ :=
  { m.process with table := close (close m.process.table m.read) m.write }

end Piped

namespace Outcome

def andThen (o : Outcome κ) (next : Int → Process κ → Outcome κ) : Outcome κ :=
  match o with
  | .returned status p => next status p
  | .exited code => .exited code

-- what `exit(parse_command(..))` leaves in the eight bits of the exit code
def exitCode : Outcome κ → Int
  | .returned status _ => status % 256
  | .exited code => code % 256

-- the exit code that `waitpid` hands out, if the child exits normally
def waited (o : Outcome κ) (killed : Bool) : Option Int :=
  if killed then none else some o.exitCode

end Outcome

def runInParallel (calls : Calls) (cmd1 cmd2 : Process κ → Outcome κ) (level : Nat) (place : Place)
    (p : Process κ) : Outcome κ :=
  let pid1 := false :: place
  let pid2 := true :: place
  if calls.fork1 then
    if calls.fork2 then
      let _status1 := (cmd1 p.copy).waited calls.killed1
      let status2 := (cmd2 p.copy).waited calls.killed2
      .returned (status2.getD 0) ((((p.forked pid1).forked pid2).waitpid pid1).waitpid pid2)
    else .returned 0 ((p.forked pid1).report "Fork failed" level)
  else .returned 0 (p.report "Fork failed" level)

-- a failed `pipe` is reported only
def runOnPipe (calls : Calls) (cmd1 cmd2 : Process κ → Outcome κ) (level : Nat) (place : Place)
    (p : Process κ) : Outcome κ :=
  let pid1 := false :: place
  let pid2 := true :: place
  let m := p.makePipe calls level place
  if calls.fork1 then
    if calls.fork2 then
      let _status1 := (cmd1 m.writer).waited calls.killed1
      let status2 := (cmd2 m.reader).waited calls.killed2
      .returned (status2.getD 0) ((((m.closed.forked pid1).forked pid2).waitpid pid1).waitpid pid2)
    else .returned 0 ((m.process.forked pid1).report "Fork failed" level)
  else .returned 0 (m.process.report "Fork failed" level)

def parseCommand (calls : Place → Calls) (simple : Simple σ κ) :
    Command σ → Nat → Place → Process κ → Outcome κ
  | .simple scmd, _, _, p =>
    match simple scmd p.env p.dir p.io with
    | .returned status env dir => .returned status { p with env := env, dir := dir }
    | .exited => .exited shellExitStatus
  | .sequential cmd1 cmd2, level, place, p =>
    (parseCommand calls simple cmd1 (level + 1) (false :: place) p).andThen fun _ p =>
      parseCommand calls simple cmd2 (level + 1) (true :: place) p
  | .parallel cmd1 cmd2, level, place, p =>
    runInParallel (calls place) (parseCommand calls simple cmd1 (level + 1) (false :: place))
      (parseCommand calls simple cmd2 (level + 1) (true :: place)) level place p
  | .conditionalNzero cmd1 cmd2, level, place, p =>
    (parseCommand calls simple cmd1 (level + 1) (false :: place) p).andThen fun status p =>
      if status ≠ 0 then parseCommand calls simple cmd2 (level + 1) (true :: place) p
      else .returned status p
  | .conditionalZero cmd1 cmd2, level, place, p =>
    (parseCommand calls simple cmd1 (level + 1) (false :: place) p).andThen fun status p =>
      if status = 0 then parseCommand calls simple cmd2 (level + 1) (true :: place) p
      else .returned status p
  | .pipe cmd1 cmd2, level, place, p =>
    runOnPipe (calls place) (parseCommand calls simple cmd1 (level + 1) (false :: place))
      (parseCommand calls simple cmd2 (level + 1) (true :: place)) level place p

def Process.start (env : Env) (dir : κ) (stdin stdout : Nat) (others : Table Nat) : Process κ where
  env := env
  dir := dir
  table := (some stdin :: some stdout :: others).map (Option.map Stream.other)
  children := []
  reports := []

-- the simple commands of the shell, which only print the level; an undefined one ends its process
def simpleCommand (k : Kernel κ) : Simple SimpleCommand κ := fun s env dir io =>
  match parseCommandSimple k s 0 env dir [io.stdin, io.stdout] with
  | .returned r => .returned r.status r.env r.dir
  | .exited _ => .exited
  | .undefined => .exited

section
variable {p : Process κ} {calls : Calls} {level : Nat} {place : Place}

theorem waited_children (p : Process κ) (place : Place) :
    ((((p.forked (false :: place)).forked (true :: place)).waitpid (false :: place)).waitpid
      (true :: place)).children = p.children := by
  simp [Process.forked, Process.waitpid]

theorem makePipe_pipes (h : calls.pipes) : p.makePipe calls level place =
    ⟨{ p with table := allocate (allocate p.table (.pipe place false)) (.pipe place true) },
      lowest p.table, lowest (allocate p.table (.pipe place false))⟩ := if_pos h

theorem makePipe_fails (h : ¬ calls.pipes) : p.makePipe calls level place =
    ⟨p.report "Pipe failed" level, calls.garbage.1, calls.garbage.2⟩ := if_neg h

theorem write_fresh (t : Table Stream) (d : Stream) : lowest (allocate t d) ≠ lowest t ∧
    lookup t (lowest (allocate t d)) = none := by
  have hfree := lookup_lowest (allocate t d)
  rw [lookup_allocate] at hfree
  split at hfree
  · cases hfree
  · exact ⟨by assumption, hfree⟩

theorem makePipe_lookup (h : calls.pipes) (n : Nat) :
    lookup (p.makePipe calls level place).process.table n =
      if n = (p.makePipe calls level place).write then some (.pipe place true)
      else if n = (p.makePipe calls level place).read then some (.pipe place false)
      else lookup p.table n := by
  rw [makePipe_pipes h]
  exact (lookup_allocate _ _ _).trans (by rw [lookup_allocate])

variable (p level place) in
theorem makePipe_free (h : calls.pipes) : lookup p.table (p.makePipe calls level place).read = none ∧
    lookup p.table (p.makePipe calls level place).write = none ∧
    (p.makePipe calls level place).write ≠ (p.makePipe calls level place).read := by
  rw [makePipe_pipes h]
  obtain ⟨hne, hfree⟩ := write_fresh p.table (.pipe place false)
  exact ⟨lookup_lowest _, hfree, hne⟩

variable (p level place) in
theorem closed_lookup (h : calls.pipes) (n : Nat) :
    lookup (p.makePipe calls level place).closed.table n = lookup p.table n := by
  obtain ⟨hread, hwrite, -⟩ := makePipe_free p level place h
  rw [Piped.closed, lookup_close, lookup_close, makePipe_lookup h]
  by_cases hw : n = (p.makePipe calls level place).write
  · rw [if_pos hw, hw, hwrite]
  · by_cases hr : n = (p.makePipe calls level place).read
    · rw [if_neg hw, if_pos hr, hr, hread]
    · simp only [hw, hr, if_false]

theorem writer_lookup (h : calls.pipes) (hout : lookup p.table 1 ≠ none) (n : Nat) :
    lookup (p.makePipe calls level place).writer.table n =
      if n = 1 then some (.pipe place true) else lookup p.table n := by
  obtain ⟨hread, hwrite, hne⟩ := makePipe_free p level place h
  have hend : lookup (close (p.makePipe calls level place).process.table
      (p.makePipe calls level place).read) (p.makePipe calls level place).write =
        some (.pipe place true) := by
    rw [lookup_close, if_neg hne, makePipe_lookup h, if_pos rfl]
  rw [Piped.writer, lookup_close, lookup_dup2 hend, lookup_close, makePipe_lookup h]
  by_cases hw : n = (p.makePipe calls level place).write
  · have hn : n ≠ 1 := by
      rintro rfl
      exact hout (hw ▸ hwrite)
    rw [if_pos hw, if_neg hn, hw, hwrite]
  · by_cases hr : n = (p.makePipe calls level place).read
    · have hn : n ≠ 1 := by
        rintro rfl
        exact hout (hr ▸ hread)
      rw [if_neg hw, if_neg hn, if_neg hn, if_pos hr, hr, hread]
    · simp only [hw, hr, if_false]

theorem reader_lookup (h : calls.pipes) (hin : lookup p.table 0 ≠ none) (n : Nat) :
    lookup (p.makePipe calls level place).reader.table n =
      if n = 0 then some (.pipe place false) else lookup p.table n := by
  obtain ⟨hread, hwrite, hne⟩ := makePipe_free p level place h
  have hend : lookup (close (p.makePipe calls level place).process.table
      (p.makePipe calls level place).write) (p.makePipe calls level place).read =
        some (.pipe place false) := by
    rw [lookup_close, if_neg (Ne.symm hne), makePipe_lookup h, if_neg (Ne.symm hne), if_pos rfl]
  rw [Piped.reader, lookup_close, lookup_dup2 hend, lookup_close, makePipe_lookup h]
  by_cases hr : n = (p.makePipe calls level place).read
  · have hn : n ≠ 0 := by
      rintro rfl
      exact hin (hr ▸ hread)
    rw [if_pos hr, if_neg hn, hr, hread]
  · by_cases hw : n = (p.makePipe calls level place).write
    · have hn : n ≠ 0 := by
        rintro rfl
        exact hin (hw ▸ hwrite)
      rw [if_neg hr, if_neg hn, if_neg hn, if_pos hw, hw, hwrite]
    · simp only [hw, hr, if_false]

end

end

end OperatingSystems.Shell
