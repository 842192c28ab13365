import OperatingSystems.Shell.Assignment
import OperatingSystems.Shell.Redirection

namespace OperatingSystems.Shell
open Descriptors

def shellExitStatus : Int := -100

def parseError (str : String) (place : Nat) : String :=
  "Parse error near " ++ toString place ++ ": " ++ str ++ "\n"

inductive Execution
  | failed
  | exited (code : Nat)
  | killed

-- what a simple command asks of the system; `κ` is the type of the directories
structure Kernel (κ : Type) where
  forks : Bool
  opens : String → Mode → Bool
  chdir : κ → String → Option κ
  execvp : List String → Env → κ → Table Stream → Execution

inductive Ran
  | assignment
  | cd (child : Setup)
  | external (argv : List String) (child : Setup)

-- `reports` is what the shell and the forked process print about failures
structure Returned (κ : Type) where
  ran : Option Ran
  status : Int
  env : Env
  dir : κ
  reports : List String

inductive Effect (κ : Type)
  | undefined
  | exited (code : Int)
  | returned (r : Returned κ)

section
variable {κ : Type}

-- `chdir` rejects `NULL`, the word of an empty list
def shellCd (k : Kernel κ) (env : Env) (dir : κ) (words : List Word) : Int × κ :=
  match (getWord env (firstParts words)).bind (k.chdir dir) with
  | some dir' => (0, dir')
  | none => (-1, dir)

def parseSimple (k : Kernel κ) (s : SimpleCommand) (level : Nat) (env : Env) (dir : κ)
    (table : Table Stream) : Returned κ :=
  if k.forks then
    let child := parseSimpleRedirect k.opens env s table
    match getArgv env s with
    | none => ⟨none, 1, env, dir, ["Error retrieving word."]⟩
    | some argv =>
      match k.execvp argv env dir child.table with
      | .failed => ⟨some (.external argv child), 1, env, dir,
          ["Execution failed for '" ++ (getWord env s.verb.parts).getD "" ++ "'\n"]⟩
      | .exited code => ⟨some (.external argv child), (code % 256 : Nat), env, dir, []⟩
      | .killed => ⟨some (.external argv child), -1, env, dir, []⟩
  else ⟨none, -1, env, dir, [parseError "Fork failed" level]⟩

-- the child of `cd` reports what the parent then does again
def parseCd (k : Kernel κ) (s : SimpleCommand) (level : Nat) (env : Env) (dir : κ)
    (table : Table Stream) : Returned κ :=
  if k.forks then
    let rc := shellCd k env dir s.params
    let cd := shellCd k env dir s.params
    ⟨some (.cd (cdRedirect k.opens env s table)), cd.1, env, cd.2,
      if rc.1 = -1 then [parseError "Path not found" level] else []⟩
  else ⟨none, -1, env, dir, [parseError "Fork failed" level]⟩

-- `parse_command` for `OP_NONE`
def parseCommandSimple (k : Kernel κ) (s : SimpleCommand) (level : Nat) (env : Env) (dir : κ)
    (table : Table Stream) : Effect κ :=
  match parseAssignment env s.verb with
  | .undefined => .undefined
  | .assigned status env' => .returned ⟨some .assignment, status, env', dir, []⟩
  | .other =>
    if s.verb.first.string = "cd" then .returned (parseCd k s level env dir table)
    else if s.verb.first.string = "exit" ∨ s.verb.first.string = "quit" then
      .exited shellExitStatus
    else .returned (parseSimple k s level env dir table)

def Quits (word : String) : Prop := word = "exit" ∨ word = "quit"

def RunsCd : Effect κ → Prop
  | .returned r => ∃ child, r.ran = some (.cd child)
  | _ => False

def Exits : Effect κ → Prop
  | .exited _ => True
  | _ => False

def Executes (argv : List String) : Effect κ → Prop
  | .returned r => ∃ child, r.ran = some (.external argv child)
  | _ => False

def cdDirectory (k : Kernel κ) (env : Env) (dir : κ) : List Word → κ
  | [param] => (k.chdir dir (param.expansion env)).getD dir
  | _ => dir

structure Dispatched (k : Kernel κ) (s : SimpleCommand) (env : Env) (dir : κ) (e : Effect κ) :
    Prop where
  cd : RunsCd e ↔ s.verb.expansion env = "cd"
  quit : Exits e ↔ Quits (s.verb.expansion env)
  external : Executes (s.verb.expansion env :: s.params.map (Word.expansion env)) e ↔
    ¬ (s.verb.expansion env = "cd" ∨ Quits (s.verb.expansion env))
  directory : ∀ r, e = .returned r →
    r.dir = if s.verb.expansion env = "cd" then cdDirectory k env dir s.params else dir

structure Dispatchable (k : Kernel κ) (s : SimpleCommand) (env : Env) (dir : κ) : Prop where
  other : '=' ∉ (s.verb.expansion env).toList
  cd : s.verb.first.string = "cd" ↔ s.verb.expansion env = "cd"
  quit : Quits s.verb.first.string ↔ Quits (s.verb.expansion env)
  forks : k.forks ∨ Quits (s.verb.expansion env)
  single : s.verb.expansion env = "cd" → ∀ param other params,
    s.params = param :: other :: params →
    (k.chdir dir (param.expansion env)).getD dir = dir

variable {k : Kernel κ} {s : SimpleCommand} {level : Nat} {env : Env} {dir : κ}
  {table : Table Stream}

theorem shellCd_cons (param : Word) (params : List Word) :
    (shellCd k env dir (param :: params)).2 = (k.chdir dir (param.expansion env)).getD dir := by
  have hword : getWord env (firstParts (param :: params)) = some (param.expansion env) :=
    getWord_parts env param
  rw [shellCd, hword, Option.bind_some]
  cases k.chdir dir (param.expansion env) <;> rfl

theorem shellCd_directory : (shellCd k env dir s.params).2 = cdDirectory k env dir s.params ↔
    ∀ param other params, s.params = param :: other :: params →
      (k.chdir dir (param.expansion env)).getD dir = dir := by
  rcases s.params with _ | ⟨param, _ | ⟨other, params⟩⟩
  · exact iff_of_true rfl (fun _ _ _ h => nomatch h)
  · exact iff_of_true (shellCd_cons param []) (fun _ _ _ h => nomatch h)
  · have hseveral : cdDirectory k env dir (param :: other :: params) = dir := rfl
    rw [shellCd_cons, hseveral]
    constructor
    · intro h param' other' params' hp
      rw [← (List.cons.inj hp).1]
      exact h
    · exact fun h => h param other params rfl

theorem simple_cd (heq : '=' ∉ (s.verb.expansion env).toList) (hcd : s.verb.first.string = "cd") :
    parseCommandSimple k s level env dir table = .returned (parseCd k s level env dir table) := by
  rw [parseCommandSimple, parseAssignment_other.mpr heq]
  exact if_pos hcd

theorem simple_exit (heq : '=' ∉ (s.verb.expansion env).toList)
    (hquit : Quits s.verb.first.string) :
    parseCommandSimple k s level env dir table = .exited shellExitStatus := by
  have hcd : s.verb.first.string ≠ "cd" := by
    rcases hquit with h | h <;> rw [h] <;> decide
  rw [parseCommandSimple, parseAssignment_other.mpr heq]
  exact (if_neg hcd).trans (if_pos hquit)

theorem simple_external (heq : '=' ∉ (s.verb.expansion env).toList)
    (hcd : s.verb.first.string ≠ "cd") (hquit : ¬ Quits s.verb.first.string) :
    parseCommandSimple k s level env dir table = .returned (parseSimple k s level env dir table) := by
  rw [parseCommandSimple, parseAssignment_other.mpr heq]
  exact (if_neg hcd).trans (if_neg hquit)

theorem equals_not_quits {word : String} (h : '=' ∈ word.toList) : ¬ (word = "cd" ∨ Quits word) := by
  rintro (rfl | rfl | rfl) <;> revert h <;> decide

theorem simple_equals (heq : '=' ∈ (s.verb.expansion env).toList) (argv : List String) :
    ¬ Executes argv (parseCommandSimple k s level env dir table) := by
  have hother : parseAssignment env s.verb ≠ .other := fun h => parseAssignment_other.mp h heq
  rw [parseCommandSimple]
  cases ha : parseAssignment env s.verb with
  | undefined => exact id
  | other => exact absurd ha hother
  | assigned status env' => exact fun ⟨_, h⟩ => nomatch h

theorem parseCd_runs : RunsCd (.returned (parseCd k s level env dir table)) ↔ k.forks := by
  unfold parseCd
  by_cases hf : k.forks = true
  · rw [if_pos hf]
    exact iff_of_true ⟨_, rfl⟩ hf
  · rw [if_neg hf]
    exact iff_of_false (fun ⟨_, h⟩ => nomatch h) hf

theorem parseCd_executes (argv : List String) :
    ¬ Executes argv (.returned (parseCd k s level env dir table)) := by
  unfold parseCd
  by_cases hf : k.forks = true
  · rw [if_pos hf]
    exact fun ⟨_, h⟩ => nomatch h
  · rw [if_neg hf]
    exact fun ⟨_, h⟩ => nomatch h

theorem parseCd_dir (hf : k.forks) :
    (parseCd k s level env dir table).dir = (shellCd k env dir s.params).2 := by
  rw [parseCd, if_pos hf]

theorem parseSimple_dir : (parseSimple k s level env dir table).dir = dir := by
  unfold parseSimple
  split
  · simp only [getArgv_expansion]
    split <;> rfl
  · rfl

theorem parseSimple_runs : ¬ RunsCd (.returned (parseSimple k s level env dir table)) := by
  unfold parseSimple
  by_cases hf : k.forks = true
  · simp only [if_pos hf, getArgv_expansion]
    split <;> exact fun ⟨_, h⟩ => nomatch h
  · rw [if_neg hf]
    exact fun ⟨_, h⟩ => nomatch h

theorem parseSimple_executes :
    Executes (s.verb.expansion env :: s.params.map (Word.expansion env))
      (.returned (parseSimple k s level env dir table)) ↔ k.forks := by
  unfold parseSimple
  by_cases hf : k.forks = true
  · simp only [if_pos hf, getArgv_expansion]
    refine iff_of_true ?_ hf
    split <;> exact ⟨_, rfl⟩
  · rw [if_neg hf]
    exact iff_of_false (fun ⟨_, h⟩ => nomatch h) hf

theorem parseAssignment_status {verb : Word} {status : Int} {env' : Env}
    (h : parseAssignment env verb = .assigned status env') : status = -1 ∨ status = 0 := by
  unfold parseAssignment setenv at h
  split at h
  · cases h
  · split at h
    · split at h
      · cases h
      · split at h
        · cases h
        · cases h
          split
          · exact .inl rfl
          · exact .inr rfl
    · cases h

theorem shellCd_status (k : Kernel κ) (env : Env) (dir : κ) (words : List Word) :
    (shellCd k env dir words).1 = -1 ∨ (shellCd k env dir words).1 = 0 := by
  unfold shellCd
  split
  · exact .inr rfl
  · exact .inl rfl

theorem parseCommandSimple_status {r : Returned κ}
    (h : parseCommandSimple k s level env dir table = .returned r) :
    -1 ≤ r.status ∧ r.status ≤ 255 := by
  unfold parseCommandSimple at h
  cases ha : parseAssignment env s.verb with
  | undefined => rw [ha] at h; cases h
  | assigned status env' =>
    rw [ha] at h
    cases h
    have hstatus := parseAssignment_status ha
    simp only
    omega
  | other =>
    rw [ha] at h
    simp only at h
    split at h
    · cases h
      have hcd := shellCd_status k env dir s.params
      unfold parseCd
      split
      · simp only
        omega
      · norm_num
    · split at h
      · cases h
      · cases h
        unfold parseSimple
        split
        · simp only [getArgv_expansion]
          split
          · norm_num
          · simp only
            omega
          · norm_num
        · norm_num

theorem cd_not_quits {word : String} (h : word = "cd") : ¬ Quits word := by
  rintro (hq | hq) <;> exact absurd (h.symm.trans hq) (by decide)

theorem dispatched_cd (heq : '=' ∉ (s.verb.expansion env).toList)
    (hcd : s.verb.first.string = "cd") :
    Dispatched k s env dir (parseCommandSimple k s level env dir table) ↔
      Dispatchable k s env dir := by
  have hfirst := cd_not_quits hcd
  rw [simple_cd heq hcd]
  constructor
  · intro h
    have hword : s.verb.expansion env = "cd" := by
      by_contra hw
      by_cases hq : Quits (s.verb.expansion env)
      · exact h.quit.mpr hq
      · exact parseCd_executes _ (h.external.mpr (not_or.mpr ⟨hw, hq⟩))
    have hforks := parseCd_runs.mp (h.cd.mpr hword)
    have hdir := h.directory _ rfl
    rw [parseCd_dir hforks, if_pos hword] at hdir
    exact ⟨heq, iff_of_true hcd hword, iff_of_false hfirst (cd_not_quits hword), .inl hforks,
      fun _ => shellCd_directory.mp hdir⟩
  · intro h
    have hword := h.cd.mp hcd
    have hforks := h.forks.resolve_right (cd_not_quits hword)
    refine ⟨iff_of_true (parseCd_runs.mpr hforks) hword, iff_of_false id (cd_not_quits hword),
      iff_of_false (parseCd_executes _) (fun hn => hn (.inl hword)), ?_⟩
    rintro r hr
    cases hr
    rw [parseCd_dir hforks, if_pos hword]
    exact shellCd_directory.mpr (h.single hword)

theorem dispatched_exit (heq : '=' ∉ (s.verb.expansion env).toList)
    (hquit : Quits s.verb.first.string) :
    Dispatched k s env dir (parseCommandSimple k s level env dir table) ↔
      Dispatchable k s env dir := by
  have hfirst : s.verb.first.string ≠ "cd" := fun hcd => cd_not_quits hcd hquit
  rw [simple_exit heq hquit]
  constructor
  · intro h
    have hword := h.quit.mp trivial
    have hne : s.verb.expansion env ≠ "cd" := fun hcd => cd_not_quits hcd hword
    exact ⟨heq, iff_of_false hfirst hne, iff_of_true hquit hword, .inr hword,
      fun hcd => absurd hcd hne⟩
  · intro h
    have hword := h.quit.mp hquit
    exact ⟨iff_of_false id (fun hcd => cd_not_quits hcd hword), iff_of_true trivial hword,
      iff_of_false id (fun hn => hn (.inr hword)), fun _ hr => nomatch hr⟩

theorem dispatched_external (heq : '=' ∉ (s.verb.expansion env).toList)
    (hcd : s.verb.first.string ≠ "cd") (hquit : ¬ Quits s.verb.first.string) :
    Dispatched k s env dir (parseCommandSimple k s level env dir table) ↔
      Dispatchable k s env dir := by
  rw [simple_external heq hcd hquit]
  constructor
  · intro h
    have hne : s.verb.expansion env ≠ "cd" := fun hw => parseSimple_runs (h.cd.mpr hw)
    have hnq : ¬ Quits (s.verb.expansion env) := fun hw => h.quit.mpr hw
    have hforks := parseSimple_executes.mp (h.external.mpr (not_or.mpr ⟨hne, hnq⟩))
    exact ⟨heq, iff_of_false hcd hne, iff_of_false hquit hnq, .inl hforks,
      fun hw => absurd hw hne⟩
  · intro h
    have hne : s.verb.expansion env ≠ "cd" := fun hw => hcd (h.cd.mpr hw)
    have hnq : ¬ Quits (s.verb.expansion env) := fun hw => hquit (h.quit.mpr hw)
    refine ⟨iff_of_false parseSimple_runs hne, iff_of_false id hnq,
      iff_of_true (parseSimple_executes.mpr (h.forks.resolve_right hnq)) (not_or.mpr ⟨hne, hnq⟩), ?_⟩
    rintro r hr
    cases hr
    rw [parseSimple_dir, if_neg hne]

theorem dispatched_iff (k : Kernel κ) (s : SimpleCommand) (level : Nat) (env : Env) (dir : κ)
    (table : Table Stream) :
    Dispatched k s env dir (parseCommandSimple k s level env dir table) ↔
      Dispatchable k s env dir := by
  by_cases heq : '=' ∈ (s.verb.expansion env).toList
  · refine iff_of_false (fun h => ?_) (fun h => h.other heq)
    exact simple_equals heq _ (h.external.mpr (equals_not_quits heq))
  · by_cases hcd : s.verb.first.string = "cd"
    · exact dispatched_cd heq hcd
    · by_cases hquit : Quits s.verb.first.string
      · exact dispatched_exit heq hquit
      · exact dispatched_external heq hcd hquit

end

def somewhere : Kernel String where
  forks := true
  opens := fun _ _ => true
  chdir := fun dir path => some (dir ++ "/" ++ path)
  execvp := fun _ _ _ _ => .exited 0

def command (verb : Word) (params : List Word) : SimpleCommand :=
  bindParts verb params Redirect.empty

-- `cd a b` changes the directory, and `$X` with the value `cd` runs a program of this name
theorem dispatch_misses :
    (∃ r, parseCommandSimple somewhere (command (word "cd") [word "a", word "b"]) 0 (fun _ => none)
      "/home" terminal = .returned r ∧ r.dir = "/home/a") ∧
    ¬ Dispatched somewhere (command (word "cd") [word "a", word "b"]) (fun _ => none) "/home"
      (parseCommandSimple somewhere (command (word "cd") [word "a", word "b"]) 0 (fun _ => none)
        "/home" terminal) ∧
    ¬ Dispatched somewhere (command ⟨variable_ "X", []⟩ []) (fun _ => some "cd") "/home"
      (parseCommandSimple somewhere (command ⟨variable_ "X", []⟩ []) 0 (fun _ => some "cd")
        "/home" terminal) := by
  refine ⟨⟨_, rfl, by decide⟩, fun h => ?_, fun h => ?_⟩
  · have hdir := h.directory _ rfl
    revert hdir
    decide
  · obtain ⟨child, hran⟩ := h.cd.mpr (by decide)
    cases hran

end OperatingSystems.Shell
