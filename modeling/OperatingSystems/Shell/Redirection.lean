import Mathlib.Data.List.Induction
import Mathlib.Tactic.IntervalCases
import OperatingSystems.Library.Descriptors
import OperatingSystems.Shell.Word

namespace OperatingSystems.Shell
open Descriptors

def ioOutAppend : Nat := 1
def ioErrAppend : Nat := 2

inductive RedirectOp
  | indirect | o | e | oe | appendO | appendE
deriving DecidableEq

-- `redirect_t`; `shared` says that both lists end in the node of one `&>`
structure Redirect where
  redI : List Word
  redO : List Word
  redE : List Word
  redFlags : Nat
  shared : Bool

namespace Redirect

def empty : Redirect := ⟨[], [], [], 0, false⟩

-- a node behind the shared one belongs to both lists
def addOut (r : Redirect) (w : Word) : Redirect :=
  { r with redO := r.redO ++ [w], redE := if r.shared then r.redE ++ [w] else r.redE }

def addErr (r : Redirect) (w : Word) : Redirect :=
  { r with redE := r.redE ++ [w], redO := if r.shared then r.redO ++ [w] else r.redO }

-- one rule of the grammar; the assertion of `add_word_to_list` fails at a second `&>`
def add (r : Redirect) : RedirectOp × Word → Option Redirect
  | (.indirect, w) => some { r with redI := r.redI ++ [w] }
  | (.o, w) => some (r.addOut w)
  | (.e, w) => some (r.addErr w)
  | (.oe, w) =>
    if r.shared then none
    else some { r with redO := r.redO ++ [w], redE := r.redE ++ [w], shared := true }
  | (.appendO, w) => some { r.addOut w with redFlags := r.redFlags ||| ioOutAppend }
  | (.appendE, w) => some { r.addErr w with redFlags := r.redFlags ||| ioErrAppend }

def collect (redirections : List (RedirectOp × Word)) : Option Redirect :=
  redirections.foldlM add empty

end Redirect

def bindParts (verb : Word) (params : List Word) (red : Redirect) : SimpleCommand where
  verb := verb
  params := params
  in_ := red.redI
  out := red.redO
  err := red.redE
  ioFlags := red.redFlags

inductive Mode
  | read | append | truncate
deriving DecidableEq

-- the way from a node of a command tree to its root
abbrev Place := List Bool

-- `opened` is the number of the call of `open`; a pipe is known by the node that makes it
inductive Stream
  | other (n : Nat)
  | file (path : String) (mode : Mode) (opened : Nat)
  | pipe (place : Place) (writes : Bool)
deriving DecidableEq

structure Setup where
  table : Table Stream
  calls : List (String × Mode)

-- `open`, a `dup2` to each target and `close`; a failed `open` returns no number that is in use
def openOnto (opens : String → Mode → Bool) (targets : List Nat) (path : String) (mode : Mode)
    (s : Setup) : Setup :=
  let calls := s.calls ++ [(path, mode)]
  if opens path mode then
    let fd := lowest s.table
    let table := allocate s.table (.file path mode s.calls.length)
    ⟨close (targets.foldl (fun t target => dup2 t fd target) table) fd, calls⟩
  else ⟨s.table, calls⟩

def openFlags (ioFlags append : Nat) : Mode := if ioFlags = append then .append else .truncate

def redirectIn (opens : String → Mode → Bool) (infile : Option String) (s : Setup) : Setup :=
  match infile with
  | some infile => openOnto opens [0] infile .read s
  | none => s

def redirectOut (opens : String → Mode → Bool) (ioFlags : Nat) (outfile errfile : Option String)
    (s : Setup) : Setup :=
  match outfile, errfile with
  | some outfile, some errfile =>
    if outfile = errfile then openOnto opens [1, 2] outfile (openFlags ioFlags ioOutAppend) s
    else openOnto opens [2] errfile (openFlags ioFlags ioErrAppend)
      (openOnto opens [1] outfile (openFlags ioFlags ioOutAppend) s)
  | some outfile, none => openOnto opens [1] outfile (openFlags ioFlags ioOutAppend) s
  | none, some errfile => openOnto opens [2] errfile (openFlags ioFlags ioErrAppend) s
  | none, none => s

def redirect (opens : String → Mode → Bool) (env : Env) (s : SimpleCommand) (table : Table Stream) :
    Setup :=
  redirectOut opens s.ioFlags (getWord env (firstParts s.out)) (getWord env (firstParts s.err))
    (redirectIn opens (getWord env (firstParts s.in_)) ⟨table, []⟩)

-- the set-up of `parse_simple` and its copy in the `cd` branch of `parse_command`
def parseSimpleRedirect := redirect
def cdRedirect := redirect

def wantedMode (ioFlags append : Nat) : Mode :=
  if ioFlags &&& append ≠ 0 then .append else .truncate

def Bound (opens : String → Mode → Bool) (before : Table Stream) (s : Setup) (target : Nat)
    (file : Option String) (mode : Mode) : Prop :=
  match file with
  | none => lookup s.table target = lookup before target
  | some path => (path, mode) ∈ s.calls ∧
    if opens path mode then ∃ n, lookup s.table target = some (.file path mode n)
    else lookup s.table target = lookup before target

structure Redirected (opens : String → Mode → Bool) (env : Env) (c : SimpleCommand)
    (before : Table Stream) (s : Setup) : Prop where
  stdin : Bound opens before s 0 (getWord env (firstParts c.in_)) .read
  stdout : Bound opens before s 1 (getWord env (firstParts c.out)) (wantedMode c.ioFlags ioOutAppend)
  stderr : Bound opens before s 2 (getWord env (firstParts c.err)) (wantedMode c.ioFlags ioErrAppend)
  shared : ∀ path mode, getWord env (firstParts c.out) = some path →
    getWord env (firstParts c.err) = some path → mode ≠ .read → (path, mode) ∈ s.calls →
    opens path mode → lookup s.table 1 = lookup s.table 2

-- a file that can be opened does not get the number of its own target
def Clear (opens : String → Mode → Bool) (before : Table Stream) (target : Nat)
    (file : Option String) (mode : Mode) : Prop :=
  ∀ path, file = some path → opens path mode → lowest before ≠ target

section
variable {opens : String → Mode → Bool} {s : Setup} {targets : List Nat} {path : String}
  {mode : Mode}

theorem openOnto_calls : (openOnto opens targets path mode s).calls = s.calls ++ [(path, mode)] := by
  unfold openOnto
  split <;> rfl

theorem openOnto_call : (path, mode) ∈ (openOnto opens targets path mode s).calls := by
  rw [openOnto_calls]
  exact List.mem_append_right _ (List.mem_singleton.mpr rfl)

theorem openOnto_calls_mono {c : String × Mode} (hc : c ∈ s.calls) :
    c ∈ (openOnto opens targets path mode s).calls := by
  rw [openOnto_calls]
  exact List.mem_append_left _ hc

theorem foldl_dup2 {t : Table Stream} {fd : Nat} {d : Stream} (h : lookup t fd = some d) (n : Nat) :
    lookup (targets.foldl (fun t target => dup2 t fd target) t) n =
      if n ∈ targets then some d else lookup t n := by
  induction targets generalizing t with
  | nil => simp
  | cons target targets ih =>
    have hkeep : lookup (dup2 t fd target) fd = some d := by
      rw [lookup_dup2 h, h, ite_self]
    rw [List.foldl_cons, ih hkeep, lookup_dup2 h]
    by_cases hn : n = target <;> simp [hn]

-- the last `close` takes the file away from a target whose number it got
theorem openOnto_lookup (n : Nat) : lookup (openOnto opens targets path mode s).table n =
    if opens path mode ∧ n ∈ targets ∧ lowest s.table ≠ n then some (.file path mode s.calls.length)
    else lookup s.table n := by
  have hnew (d : Stream) : lookup (allocate s.table d) (lowest s.table) = some d := by
    rw [lookup_allocate, if_pos rfl]
  unfold openOnto
  by_cases ho : opens path mode = true
  · rw [if_pos ho, lookup_close, foldl_dup2 (hnew _), lookup_allocate]
    by_cases hl : n = lowest s.table
    · subst hl
      simp [lookup_lowest]
    · simp [hl, Ne.symm hl, ho]
  · rw [if_neg ho, if_neg (fun h => ho h.1)]

theorem openOnto_other {n : Nat} (hn : n ∉ targets) :
    lookup (openOnto opens targets path mode s).table n = lookup s.table n := by
  rw [openOnto_lookup, if_neg (fun h => hn h.2.1)]

theorem openOnto_lowest : lowest (openOnto opens targets path mode s).table = lowest s.table := by
  refine lowest_unique ?_ fun m hm => ?_
  · rw [openOnto_lookup, if_neg (fun h => h.2.2 rfl), lookup_lowest]
  · rw [openOnto_lookup]
    split
    · exact fun h => nomatch h
    · exact lookup_lt_lowest hm

theorem openOnto_bound {target : Nat} (ht : target ∈ targets) :
    Bound opens s.table (openOnto opens targets path mode s) target (some path) mode ↔
      Clear opens s.table target (some path) mode := by
  constructor
  · rintro ⟨-, hb⟩ path' hpath hopens hl
    obtain rfl : path = path' := Option.some.inj hpath
    rw [if_pos hopens, openOnto_lookup, if_neg (fun h => h.2.2 hl), ← hl, lookup_lowest] at hb
    obtain ⟨n, hn⟩ := hb
    cases hn
  · intro hclear
    refine ⟨openOnto_call, ?_⟩
    rw [openOnto_lookup]
    by_cases ho : opens path mode = true
    · rw [if_pos ho, if_pos ⟨ho, ht, hclear path rfl ho⟩]
      exact ⟨_, rfl⟩
    · rw [if_neg ho, if_neg (fun h => ho h.1)]

theorem bound_congr {before before' : Table Stream} {s' : Setup} {target : Nat}
    {file : Option String} (hbefore : lookup before' target = lookup before target)
    (hafter : lookup s'.table target = lookup s.table target)
    (hcalls : ∀ path, file = some path → (path, mode) ∈ s.calls ∧ (path, mode) ∈ s'.calls) :
    Bound opens before' s' target file mode ↔ Bound opens before s target file mode := by
  cases file with
  | none => simp only [Bound, hbefore, hafter]
  | some path =>
    obtain ⟨hc, hc'⟩ := hcalls path rfl
    simp only [Bound, hbefore, hafter, hc, hc', true_and]

theorem bound_mode {before : Table Stream} {target : Nat} {wanted used : Mode}
    (hcalls : ∀ m, (path, m) ∈ s.calls → m = .read ∨ m = used) (hwanted : wanted ≠ .read)
    (h : Bound opens before s target (some path) wanted) : used = wanted := by
  rcases hcalls _ h.1 with hread | hused
  · exact absurd hread hwanted
  · exact hused.symm

theorem openOnto_modes (hreads : ∀ c ∈ s.calls, c.2 = .read) (m : Mode)
    (h : (path, m) ∈ (openOnto opens targets path mode s).calls) : m = .read ∨ m = mode := by
  rw [openOnto_calls] at h
  rcases List.mem_append.mp h with h | h
  · exact .inl (hreads _ h)
  · exact .inr (congrArg Prod.snd (List.mem_singleton.mp h))

end

theorem openFlags_out {ioFlags : Nat} (h : ioFlags < 4) :
    openFlags ioFlags ioOutAppend = wantedMode ioFlags ioOutAppend ↔ ioFlags ≠ 3 := by
  interval_cases ioFlags <;> decide

theorem openFlags_err {ioFlags : Nat} (h : ioFlags < 4) :
    openFlags ioFlags ioErrAppend = wantedMode ioFlags ioErrAppend ↔ ioFlags ≠ 3 := by
  interval_cases ioFlags <;> decide

theorem wantedMode_same {ioFlags : Nat} (h : ioFlags < 4) :
    (openFlags ioFlags ioOutAppend = wantedMode ioFlags ioOutAppend ∧
      openFlags ioFlags ioOutAppend = wantedMode ioFlags ioErrAppend) ↔ ioFlags = 0 := by
  interval_cases ioFlags <;> decide

theorem both_set {ioFlags : Nat} (h : ioFlags < 4) (hout : ioFlags &&& ioOutAppend ≠ 0)
    (herr : ioFlags &&& ioErrAppend ≠ 0) : ioFlags = 3 := by
  interval_cases ioFlags
  · exact absurd rfl hout
  · exact absurd rfl herr
  · exact absurd rfl hout
  · rfl

theorem wantedMode_ne_read (ioFlags append : Nat) : wantedMode ioFlags append ≠ .read := by
  unfold wantedMode
  split <;> decide

structure Prepared (ioFlags : Nat) (outfile errfile : Option String) (s : Setup) : Prop where
  small : ioFlags < 4
  out : ioFlags &&& ioOutAppend ≠ 0 → outfile ≠ none
  err : ioFlags &&& ioErrAppend ≠ 0 → errfile ≠ none
  reads : ∀ c ∈ s.calls, c.2 = .read

structure Outputs (opens : String → Mode → Bool) (ioFlags : Nat) (outfile errfile : Option String)
    (s s' : Setup) : Prop where
  stdout : Bound opens s.table s' 1 outfile (wantedMode ioFlags ioOutAppend)
  stderr : Bound opens s.table s' 2 errfile (wantedMode ioFlags ioErrAppend)
  shared : ∀ path mode, outfile = some path → errfile = some path → mode ≠ .read →
    (path, mode) ∈ s'.calls → opens path mode → lookup s'.table 1 = lookup s'.table 2

structure Outputable (opens : String → Mode → Bool) (ioFlags : Nat) (outfile errfile : Option String)
    (s : Setup) : Prop where
  single : ioFlags ≠ 3
  same : ∀ path, outfile = some path → errfile = some path → ioFlags = 0
  stdout : Clear opens s.table 1 outfile (wantedMode ioFlags ioOutAppend)
  stderr : Clear opens s.table 2 errfile (wantedMode ioFlags ioErrAppend)

section
variable {opens : String → Mode → Bool} {ioFlags : Nat} {outfile errfile : Option String} {s : Setup}

theorem redirectOut_same (path : String) (h : Prepared ioFlags (some path) (some path) s) :
    Outputs opens ioFlags (some path) (some path) s
        (redirectOut opens ioFlags (some path) (some path) s) ↔
      Outputable opens ioFlags (some path) (some path) s := by
  have heq : redirectOut opens ioFlags (some path) (some path) s =
      openOnto opens [1, 2] path (openFlags ioFlags ioOutAppend) s := if_pos rfl
  have hone : 1 ∈ [1, 2] := List.mem_cons_self
  have htwo : 2 ∈ [1, 2] := List.mem_cons_of_mem 1 List.mem_cons_self
  rw [heq]
  constructor
  · intro hout
    have hmodes : ∀ m, (path, m) ∈ (openOnto opens [1, 2] path (openFlags ioFlags ioOutAppend)
        s).calls → m = .read ∨ m = openFlags ioFlags ioOutAppend := openOnto_modes h.reads
    have hto := bound_mode hmodes (wantedMode_ne_read _ _) hout.stdout
    have hte := bound_mode hmodes (wantedMode_ne_read _ _) hout.stderr
    have hzero := (wantedMode_same h.small).mp ⟨hto, hte⟩
    refine ⟨(openFlags_out h.small).mp hto, fun _ _ _ => hzero, ?_, ?_⟩
    · rw [← hto]
      exact (openOnto_bound hone).mp (hto ▸ hout.stdout)
    · rw [← hte]
      exact (openOnto_bound htwo).mp (hte ▸ hout.stderr)
  · intro hable
    obtain ⟨hto, hte⟩ := (wantedMode_same h.small).mpr (hable.same path rfl rfl)
    refine ⟨?_, ?_, ?_⟩
    · rw [← hto]
      exact (openOnto_bound hone).mpr (hto ▸ hable.stdout)
    · rw [← hte]
      exact (openOnto_bound htwo).mpr (hte ▸ hable.stderr)
    · intro path' mode hpath _ hmode hcall hopens
      obtain rfl : path = path' := Option.some.inj hpath
      obtain rfl : mode = openFlags ioFlags ioOutAppend :=
        (openOnto_modes h.reads mode hcall).resolve_left hmode
      have hout := hable.stdout path rfl (hto ▸ hopens)
      have herr := hable.stderr path rfl (hte ▸ hopens)
      rw [openOnto_lookup, openOnto_lookup, if_pos ⟨hopens, hone, hout⟩,
        if_pos ⟨hopens, htwo, herr⟩]

theorem clear_lowest {before before' : Table Stream} (h : lowest before' = lowest before)
    (target : Nat) (file : Option String) (mode : Mode) :
    Clear opens before' target file mode ↔ Clear opens before target file mode := by
  simp only [Clear, h]

theorem clear_none (before : Table Stream) (target : Nat) (mode : Mode) :
    Clear opens before target none mode := fun _ hp => nomatch hp

theorem redirectOut_differ {path path' : String} (hne : path ≠ path')
    (h : Prepared ioFlags (some path) (some path') s) :
    Outputs opens ioFlags (some path) (some path') s
        (redirectOut opens ioFlags (some path) (some path') s) ↔
      Outputable opens ioFlags (some path) (some path') s := by
  let first := openOnto opens [1] path (openFlags ioFlags ioOutAppend) s
  let second := openOnto opens [2] path' (openFlags ioFlags ioErrAppend) first
  have heq : redirectOut opens ioFlags (some path) (some path') s = second := if_neg hne
  have hout : Bound opens s.table second 1 (some path) (openFlags ioFlags ioOutAppend) ↔
      Clear opens s.table 1 (some path) (openFlags ioFlags ioOutAppend) := by
    rw [← openOnto_bound (List.mem_singleton_self 1)]
    refine bound_congr rfl (openOnto_other (by simp)) fun path₀ hp => ?_
    obtain rfl : path = path₀ := Option.some.inj hp
    exact ⟨openOnto_call, openOnto_calls_mono openOnto_call⟩
  have herr : Bound opens s.table second 2 (some path') (openFlags ioFlags ioErrAppend) ↔
      Clear opens s.table 2 (some path') (openFlags ioFlags ioErrAppend) := by
    rw [← clear_lowest openOnto_lowest, ← openOnto_bound (List.mem_singleton_self 2)]
    refine bound_congr (openOnto_other (by simp)).symm rfl fun path₀ hp => ?_
    obtain rfl : path' = path₀ := Option.some.inj hp
    exact ⟨openOnto_call, openOnto_call⟩
  rw [heq]
  constructor
  · intro ho
    have hto : openFlags ioFlags ioOutAppend = wantedMode ioFlags ioOutAppend := by
      refine bound_mode (fun m hm => ?_) (wantedMode_ne_read _ _) ho.stdout
      rw [openOnto_calls] at hm
      rcases List.mem_append.mp hm with hm | hm
      · exact openOnto_modes h.reads m hm
      · exact absurd (congrArg Prod.fst (List.mem_singleton.mp hm)) hne
    have hsingle := (openFlags_out h.small).mp hto
    have hte := (openFlags_err h.small).mpr hsingle
    refine ⟨hsingle, fun _ hp hp' => absurd (Option.some.inj (hp.trans hp'.symm)) hne, ?_, ?_⟩
    · exact hto ▸ hout.mp (hto ▸ ho.stdout)
    · exact hte ▸ herr.mp (hte ▸ ho.stderr)
  · intro hable
    have hto := (openFlags_out h.small).mpr hable.single
    have hte := (openFlags_err h.small).mpr hable.single
    refine ⟨hto ▸ hout.mpr (hto ▸ hable.stdout), hte ▸ herr.mpr (hte ▸ hable.stderr), ?_⟩
    exact fun _ _ hp hp' => absurd (Option.some.inj (hp.trans hp'.symm)) hne

theorem redirectOut_iff (opens : String → Mode → Bool) (h : Prepared ioFlags outfile errfile s) :
    Outputs opens ioFlags outfile errfile s (redirectOut opens ioFlags outfile errfile s) ↔
      Outputable opens ioFlags outfile errfile s := by
  have hout (ho : outfile = none) : ioFlags ≠ 3 := by
    rintro rfl
    exact h.out (by decide) ho
  have herr (he : errfile = none) : ioFlags ≠ 3 := by
    rintro rfl
    exact h.err (by decide) he
  cases outfile with
  | none =>
    have hsingle := hout rfl
    cases errfile with
    | none =>
      exact iff_of_true ⟨rfl, rfl, fun _ _ hp => nomatch hp⟩
        ⟨hsingle, (fun _ hp => nomatch hp), clear_none _ _ _, clear_none _ _ _⟩
    | some path =>
      have hbound : Bound opens s.table (redirectOut opens ioFlags none (some path) s) 2 (some path)
          (openFlags ioFlags ioErrAppend) ↔ Clear opens s.table 2 (some path) _ :=
        openOnto_bound (by simp)
      rw [(openFlags_err h.small).mpr hsingle] at hbound
      exact ⟨fun ho =>
          ⟨hsingle, (fun _ hp => nomatch hp), clear_none _ _ _, hbound.mp ho.stderr⟩,
        fun hable =>
          ⟨openOnto_other (by simp), hbound.mpr hable.stderr, fun _ _ hp => nomatch hp⟩⟩
  | some path =>
    cases errfile with
    | none =>
      have hsingle := herr rfl
      have hbound : Bound opens s.table (redirectOut opens ioFlags (some path) none s) 1 (some path)
          (openFlags ioFlags ioOutAppend) ↔ Clear opens s.table 1 (some path) _ :=
        openOnto_bound (by simp)
      rw [(openFlags_out h.small).mpr hsingle] at hbound
      exact ⟨fun ho =>
          ⟨hsingle, (fun _ _ hp => nomatch hp), hbound.mp ho.stdout, clear_none _ _ _⟩,
        fun hable =>
          ⟨hbound.mpr hable.stdout, openOnto_other (by simp), fun _ _ _ hp => nomatch hp⟩⟩
    | some path' =>
      by_cases hsame : path = path'
      · subst hsame
        exact redirectOut_same path h
      · exact redirectOut_differ hsame h

theorem redirectOut_keeps (P : Setup → Prop) (hs : P s)
    (hopen : ∀ s targets path mode, 0 ∉ targets → P s → P (openOnto opens targets path mode s)) :
    P (redirectOut opens ioFlags outfile errfile s) := by
  cases outfile with
  | none =>
    cases errfile with
    | none => exact hs
    | some path => exact hopen _ _ _ _ (by simp) hs
  | some path =>
    cases errfile with
    | none => exact hopen _ _ _ _ (by simp) hs
    | some path' =>
      by_cases hsame : path = path'
      · rw [redirectOut, if_pos hsame]
        exact hopen _ _ _ _ (by simp) hs
      · rw [redirectOut, if_neg hsame]
        exact hopen _ _ _ _ (by simp) (hopen _ _ _ _ (by simp) hs)

theorem redirectOut_stdin : lookup (redirectOut opens ioFlags outfile errfile s).table 0 =
    lookup s.table 0 :=
  redirectOut_keeps (fun s' => lookup s'.table 0 = lookup s.table 0) rfl
    fun _ _ _ _ hn h => (openOnto_other hn).trans h

theorem redirectOut_calls {c : String × Mode} (hc : c ∈ s.calls) :
    c ∈ (redirectOut opens ioFlags outfile errfile s).calls :=
  redirectOut_keeps (fun s' => c ∈ s'.calls) hc fun _ _ _ _ _ h => openOnto_calls_mono h

theorem redirectOut_append (h : Prepared ioFlags outfile errfile s) (hsingle : ioFlags ≠ 3)
    (hout : outfile ≠ none → ioFlags &&& ioOutAppend ≠ 0)
    (herr : errfile ≠ none → ioFlags &&& ioErrAppend ≠ 0) (path : String) :
    (path, Mode.truncate) ∉ (redirectOut opens ioFlags outfile errfile s).calls := by
  have hreads : (path, Mode.truncate) ∉ s.calls := fun hm => nomatch h.reads _ hm
  have hopens (file : String) (targets : List Nat) :
      (path, Mode.truncate) ∉ (openOnto opens targets file .append s).calls := by
    rw [openOnto_calls]
    simpa using hreads
  cases outfile with
  | none =>
    cases errfile with
    | none => exact hreads
    | some file =>
      have hmode : openFlags ioFlags ioErrAppend = .append := by
        rw [(openFlags_err h.small).mpr hsingle]
        exact if_pos (herr (Option.some_ne_none file))
      simp only [redirectOut, hmode]
      exact hopens file [2]
  | some file =>
    have hset := hout (Option.some_ne_none file)
    cases errfile with
    | none =>
      have hmode : openFlags ioFlags ioOutAppend = .append := by
        rw [(openFlags_out h.small).mpr hsingle]
        exact if_pos hset
      simp only [redirectOut, hmode]
      exact hopens file [1]
    | some file' => exact absurd (both_set h.small hset (herr (Option.some_ne_none file'))) hsingle

theorem redirectIn_lowest (opens : String → Mode → Bool) (infile : Option String) (s : Setup) :
    lowest (redirectIn opens infile s).table = lowest s.table := by
  cases infile with
  | none => rfl
  | some path => exact openOnto_lowest

theorem redirectIn_other (opens : String → Mode → Bool) (infile : Option String) (s : Setup)
    {n : Nat} (hn : n ≠ 0) :
    lookup (redirectIn opens infile s).table n = lookup s.table n := by
  cases infile with
  | none => rfl
  | some path => exact openOnto_other (by simpa using hn)

theorem redirectIn_reads (infile : Option String) (table : Table Stream) :
    ∀ c ∈ (redirectIn opens infile ⟨table, []⟩).calls, c.2 = .read := by
  cases infile with
  | none => simp [redirectIn]
  | some path => simp [redirectIn, openOnto_calls]

theorem redirectIn_bound (infile : Option String) (table : Table Stream) :
    Bound opens table (redirectIn opens infile ⟨table, []⟩) 0 infile .read ↔
      Clear opens table 0 infile .read := by
  cases infile with
  | none => exact iff_of_true rfl (clear_none _ _ _)
  | some path => exact openOnto_bound (s := ⟨table, []⟩) (List.mem_singleton_self 0)

end

def Has (redirections : List (RedirectOp × Word)) (op : RedirectOp) : Prop :=
  ∃ w, (op, w) ∈ redirections

def Appends (redirections : List (RedirectOp × Word)) : Prop :=
  ∀ r ∈ redirections, r.1 = .appendO ∨ r.1 = .appendE

structure Collected (redirections : List (RedirectOp × Word)) (red : Redirect) : Prop where
  small : red.redFlags < 4
  out : red.redFlags &&& ioOutAppend ≠ 0 ↔ Has redirections .appendO
  err : red.redFlags &&& ioErrAppend ≠ 0 ↔ Has redirections .appendE
  outWord : Has redirections .appendO → red.redO ≠ []
  errWord : Has redirections .appendE → red.redE ≠ []
  only : Appends redirections → red.shared = false ∧
    (red.redO ≠ [] → Has redirections .appendO) ∧ (red.redE ≠ [] → Has redirections .appendE)

theorem has_snoc {redirections : List (RedirectOp × Word)} {op op' : RedirectOp} {w : Word} :
    Has (redirections ++ [(op', w)]) op ↔ Has redirections op ∨ op = op' := by
  simp only [Has, List.mem_append, List.mem_singleton, Prod.mk.injEq]
  constructor
  · rintro ⟨w', h | h⟩
    · exact .inl ⟨w', h⟩
    · exact .inr h.1
  · rintro (⟨w', h⟩ | h)
    · exact ⟨w', .inl h⟩
    · exact ⟨w, .inr ⟨h, rfl⟩⟩

theorem appends_snoc {redirections : List (RedirectOp × Word)} {op : RedirectOp} {w : Word} :
    Appends (redirections ++ [(op, w)]) ↔
      Appends redirections ∧ (op = .appendO ∨ op = .appendE) := by
  simp [Appends, or_imp, forall_and]

theorem set_out {n : Nat} (h : n < 4) : n ||| ioOutAppend < 4 ∧
    (n ||| ioOutAppend) &&& ioOutAppend ≠ 0 ∧
    ((n ||| ioOutAppend) &&& ioErrAppend ≠ 0 ↔ n &&& ioErrAppend ≠ 0) := by
  interval_cases n <;> decide

theorem set_err {n : Nat} (h : n < 4) : n ||| ioErrAppend < 4 ∧
    (n ||| ioErrAppend) &&& ioErrAppend ≠ 0 ∧
    ((n ||| ioErrAppend) &&& ioOutAppend ≠ 0 ↔ n &&& ioOutAppend ≠ 0) := by
  interval_cases n <;> decide

@[simp] theorem addOut_flags (red : Redirect) (w : Word) :
    (red.addOut w).redFlags = red.redFlags := rfl

@[simp] theorem addErr_flags (red : Redirect) (w : Word) :
    (red.addErr w).redFlags = red.redFlags := rfl

theorem addOut_grows (red : Redirect) (w : Word) (h : red.redE ≠ []) : (red.addOut w).redE ≠ [] := by
  unfold Redirect.addOut
  split <;> simp [h]

theorem addErr_grows (red : Redirect) (w : Word) (h : red.redO ≠ []) : (red.addErr w).redO ≠ [] := by
  unfold Redirect.addErr
  split <;> simp [h]

theorem addOut_unshared {red : Redirect} (w : Word) (h : red.shared = false) :
    (red.addOut w).redE = red.redE := by simp [Redirect.addOut, h]

theorem addErr_unshared {red : Redirect} (w : Word) (h : red.shared = false) :
    (red.addErr w).redO = red.redO := by simp [Redirect.addErr, h]

theorem add_collected {redirections : List (RedirectOp × Word)} {red red' : Redirect}
    (h : Collected redirections red) (op : RedirectOp) (w : Word)
    (hadd : red.add (op, w) = some red') : Collected (redirections ++ [(op, w)]) red' := by
  have hnone (h1 : op ≠ .appendO) (h2 : op ≠ .appendE) : ¬ Appends (redirections ++ [(op, w)]) := by
    rw [appends_snoc]
    exact fun h => h.2.elim h1 h2
  cases op with
  | indirect =>
    obtain rfl := Option.some.inj hadd
    exact ⟨h.small, by simpa [has_snoc] using h.out, by simpa [has_snoc] using h.err,
      by simpa [has_snoc] using h.outWord, by simpa [has_snoc] using h.errWord,
      fun ha => absurd ha (hnone (by decide) (by decide))⟩
  | o =>
    obtain rfl := Option.some.inj hadd
    refine ⟨h.small, by simpa [has_snoc] using h.out, by simpa [has_snoc] using h.err,
      fun _ => by simp [Redirect.addOut], fun he => addOut_grows red w (h.errWord ?_),
      fun ha => absurd ha (hnone (by decide) (by decide))⟩
    simpa [has_snoc] using he
  | e =>
    obtain rfl := Option.some.inj hadd
    refine ⟨h.small, by simpa [has_snoc] using h.out, by simpa [has_snoc] using h.err,
      fun ho => addErr_grows red w (h.outWord ?_), fun _ => by simp [Redirect.addErr],
      fun ha => absurd ha (hnone (by decide) (by decide))⟩
    simpa [has_snoc] using ho
  | oe =>
    rw [Redirect.add] at hadd
    split at hadd
    · cases hadd
    · obtain rfl := Option.some.inj hadd
      exact ⟨h.small, by simpa [has_snoc] using h.out, by simpa [has_snoc] using h.err,
        fun _ => by simp, fun _ => by simp, fun ha => absurd ha (hnone (by decide) (by decide))⟩
  | appendO =>
    obtain rfl := Option.some.inj hadd
    obtain ⟨hlt, hset, hother⟩ := set_out h.small
    refine ⟨hlt, iff_of_true hset (has_snoc.mpr (.inr rfl)), ?_, fun _ => by simp [Redirect.addOut],
      fun he => addOut_grows red w (h.errWord ?_), fun ha => ?_⟩
    · simpa [has_snoc] using hother.trans h.err
    · simpa [has_snoc] using he
    · obtain ⟨hshared, -, herr⟩ := h.only (appends_snoc.mp ha).1
      refine ⟨hshared, fun _ => has_snoc.mpr (.inr rfl), fun he => has_snoc.mpr (.inl (herr ?_))⟩
      rwa [← addOut_unshared w hshared]
  | appendE =>
    obtain rfl := Option.some.inj hadd
    obtain ⟨hlt, hset, hother⟩ := set_err h.small
    refine ⟨hlt, ?_, iff_of_true hset (has_snoc.mpr (.inr rfl)),
      fun ho => addErr_grows red w (h.outWord ?_), fun _ => by simp [Redirect.addErr], fun ha => ?_⟩
    · simpa [has_snoc] using hother.trans h.out
    · simpa [has_snoc] using ho
    · obtain ⟨hshared, hout, -⟩ := h.only (appends_snoc.mp ha).1
      refine ⟨hshared, fun ho => has_snoc.mpr (.inl (hout ?_)), fun _ => has_snoc.mpr (.inr rfl)⟩
      rwa [← addErr_unshared w hshared]

theorem collect_collected {redirections : List (RedirectOp × Word)} {red : Redirect}
    (h : Redirect.collect redirections = some red) : Collected redirections red := by
  induction redirections using List.reverseRecOn generalizing red with
  | nil =>
    obtain rfl := Option.some.inj h
    refine ⟨by decide, ?_, ?_, ?_, ?_, ?_⟩ <;> simp [Has, Redirect.empty]
  | append_singleton redirections r ih =>
    rw [Redirect.collect, List.foldlM_append] at h
    obtain ⟨before, hbefore, hadd⟩ := Option.bind_eq_some_iff.mp h
    rw [List.foldlM_cons] at hadd
    obtain ⟨after, hafter, hlast⟩ := Option.bind_eq_some_iff.mp hadd
    obtain rfl : after = red := Option.some.inj hlast
    exact add_collected (ih hbefore) r.1 r.2 hafter

theorem firstParts_some {words : List Word} (h : words ≠ []) (env : Env) :
    getWord env (firstParts words) ≠ none := by
  cases words with
  | nil => exact absurd rfl h
  | cons w words => exact fun hn => nomatch (getWord_parts env w).symm.trans hn

theorem firstParts_none {words : List Word} {env : Env}
    (h : getWord env (firstParts words) ≠ none) : words ≠ [] := by
  rintro rfl
  exact h rfl

def terminal : Table Stream := [some (.other 0), some (.other 1), some (.other 2)]

def word (string : String) : Word := ⟨literal string, []⟩

def toFiles (redO redE : List Word) (redFlags : Nat) : Redirect := ⟨[], redO, redE, redFlags, false⟩

structure SetUp (opens : String → Mode → Bool) (env : Env)
    (redirections : List (RedirectOp × Word)) (c : SimpleCommand) (before : Table Stream)
    (s : Setup) : Prop where
  redirected : Redirected opens env c before s
  appends : Appends redirections → ∀ path, (path, Mode.truncate) ∉ s.calls

structure Settable (opens : String → Mode → Bool) (env : Env)
    (redirections : List (RedirectOp × Word)) (c : SimpleCommand) (before : Table Stream) :
    Prop where
  single : ¬ (Has redirections .appendO ∧ Has redirections .appendE)
  same : ∀ path, getWord env (firstParts c.out) = some path →
    getWord env (firstParts c.err) = some path →
    ¬ Has redirections .appendO ∧ ¬ Has redirections .appendE
  stdin : Clear opens before 0 (getWord env (firstParts c.in_)) .read
  stdout : Clear opens before 1 (getWord env (firstParts c.out)) (wantedMode c.ioFlags ioOutAppend)
  stderr : Clear opens before 2 (getWord env (firstParts c.err)) (wantedMode c.ioFlags ioErrAppend)

theorem flags_zero {redirections : List (RedirectOp × Word)} {red : Redirect}
    (h : Collected redirections red) :
    red.redFlags = 0 ↔ ¬ Has redirections .appendO ∧ ¬ Has redirections .appendE := by
  rw [← h.out, ← h.err]
  have hsmall := h.small
  generalize red.redFlags = n at hsmall
  interval_cases n <;> decide

theorem flags_both {redirections : List (RedirectOp × Word)} {red : Redirect}
    (h : Collected redirections red) :
    red.redFlags ≠ 3 ↔ ¬ (Has redirections .appendO ∧ Has redirections .appendE) := by
  rw [← h.out, ← h.err]
  have hsmall := h.small
  generalize red.redFlags = n at hsmall
  interval_cases n <;> decide

theorem redirected_outputs (opens : String → Mode → Bool) (env : Env) (c : SimpleCommand)
    (before : Table Stream) :
    Redirected opens env c before (redirect opens env c before) ↔
      Clear opens before 0 (getWord env (firstParts c.in_)) .read ∧
      Outputs opens c.ioFlags (getWord env (firstParts c.out)) (getWord env (firstParts c.err))
        (redirectIn opens (getWord env (firstParts c.in_)) ⟨before, []⟩)
        (redirect opens env c before) := by
  have hstdin : Bound opens before (redirect opens env c before) 0
      (getWord env (firstParts c.in_)) .read ↔
        Clear opens before 0 (getWord env (firstParts c.in_)) .read := by
    rw [← redirectIn_bound]
    refine bound_congr rfl redirectOut_stdin fun path hp => ?_
    have hcall : (path, Mode.read) ∈
        (redirectIn opens (getWord env (firstParts c.in_)) ⟨before, []⟩).calls := by
      rw [hp]
      exact openOnto_call
    exact ⟨hcall, redirectOut_calls hcall⟩
  have hone := redirectIn_other opens (getWord env (firstParts c.in_)) ⟨before, []⟩ Nat.one_ne_zero
  have htwo := redirectIn_other opens (getWord env (firstParts c.in_)) ⟨before, []⟩
    (Nat.succ_ne_zero 1)
  have hbefore {target : Nat} {file : Option String} {mode : Mode}
      (h : lookup (redirectIn opens (getWord env (firstParts c.in_)) ⟨before, []⟩).table target =
        lookup before target) :
      Bound opens (redirectIn opens (getWord env (firstParts c.in_)) ⟨before, []⟩).table
          (redirect opens env c before) target file mode ↔
        Bound opens before (redirect opens env c before) target file mode := by
    cases file with
    | none => simp only [Bound, h]
    | some path => simp only [Bound, h]
  constructor
  · intro h
    exact ⟨hstdin.mp h.stdin, (hbefore hone).mpr h.stdout, (hbefore htwo).mpr h.stderr, h.shared⟩
  · rintro ⟨hclear, h⟩
    exact ⟨hstdin.mpr hclear, (hbefore hone).mp h.stdout, (hbefore htwo).mp h.stderr, h.shared⟩

end OperatingSystems.Shell
