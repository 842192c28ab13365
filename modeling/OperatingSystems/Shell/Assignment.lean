import OperatingSystems.Shell.Word

namespace OperatingSystems.Shell

inductive Assignment
  | undefined
  | other
  | assigned (status : Int) (env : Env)

-- with `overwrite` set
def setenv (env : Env) (name value : String) : Int × Env :=
  if name = "" ∨ '=' ∈ name.toList then (-1, env) else (0, Function.update env name (some value))

-- the first branch of `parse_command`; a missing part and a `NULL` for `setenv` are undefined
def parseAssignment (env : Env) (verb : Word) : Assignment :=
  match getWord env verb.parts with
  | none => .undefined
  | some word =>
    if '=' ∈ word.toList then
      match verb.rest with
      | [] => .undefined
      | _ :: values =>
        match getWord env values with
        | none => .undefined
        | some value =>
          let r := setenv env verb.first.string value
          .assigned r.1 r.2
    else .other

def Assigns (verb : Word) (name : String) (values : List Part) : Prop :=
  verb.first = literal name ∧ verb.rest = literal "=" :: values

structure Assignable (env : Env) (verb : Word) : Prop where
  recognised : parseAssignment env verb ≠ .other ↔ ∃ name values, Assigns verb name values
  assigned : ∀ name values, Assigns verb name values → parseAssignment env verb =
    .assigned 0 (Function.update env name (some (expansion env values)))
  defined : parseAssignment env verb ≠ .undefined

variable {env : Env} {verb : Word}

theorem assigns_equals {name : String} {values : List Part} (env : Env)
    (h : Assigns verb name values) :
    '=' ∈ (verb.expansion env).toList := by
  obtain ⟨-, hrest⟩ := h
  rw [Word.expansion, Word.parts, hrest]
  simp [expansion, Part.substring, literal]

theorem setenv_valid {name : String} (h : name ≠ "" ∧ '=' ∉ name.toList) (value : String) :
    setenv env name value = (0, Function.update env name (some value)) := if_neg (by tauto)

theorem setenv_invalid {name : String} (h : ¬ (name ≠ "" ∧ '=' ∉ name.toList)) (value : String) :
    setenv env name value = (-1, env) := if_pos (by tauto)

theorem parseAssignment_value {name : String} {value : Part} {values : List Part}
    (h : Assigns verb name (value :: values)) : parseAssignment env verb = .assigned
      (setenv env name (expansion env (value :: values))).1
      (setenv env name (expansion env (value :: values))).2 := by
  have heq := assigns_equals env h
  obtain ⟨hfirst, hrest⟩ := h
  simp only [parseAssignment, getWord_parts, if_pos heq, hrest, hfirst, getWord_cons]
  rfl

theorem parseAssignment_other :
    parseAssignment env verb = .other ↔ '=' ∉ (verb.expansion env).toList := by
  rw [parseAssignment, getWord_parts]
  constructor
  · intro h heq
    simp only [if_pos heq] at h
    split at h
    · cases h
    · split at h <;> cases h
  · intro h
    simp only [if_neg h]

theorem assignable_iff (env : Env) (verb : Word) :
    Assignable env verb ↔ '=' ∉ (verb.expansion env).toList ∨
      ∃ name value values, Assigns verb name (value :: values) ∧ name ≠ "" ∧ '=' ∉ name.toList := by
  by_cases heq : '=' ∈ (verb.expansion env).toList
  · have hother : parseAssignment env verb ≠ .other := fun h => parseAssignment_other.mp h heq
    constructor
    · intro h
      obtain ⟨name, values, hverb⟩ := h.recognised.mp hother
      have hset := h.assigned name values hverb
      cases values with
      | nil =>
        obtain ⟨hfirst, hrest⟩ := hverb
        simp only [parseAssignment, getWord_parts, if_pos heq, hrest] at hset
        cases hset
      | cons value values =>
        refine .inr ⟨name, value, values, hverb, ?_⟩
        by_contra hname
        rw [parseAssignment_value hverb, setenv_invalid hname] at hset
        cases hset
    · rintro (h | ⟨name, value, values, hverb, hname⟩)
      · exact absurd heq h
      · have hset : parseAssignment env verb = .assigned 0
            (Function.update env name (some (expansion env (value :: values)))) := by
          rw [parseAssignment_value hverb, setenv_valid hname]
        refine ⟨⟨fun _ => ⟨name, _, hverb⟩, fun _ => hother⟩, fun name' values' hverb' => ?_, ?_⟩
        · obtain ⟨hfirst, hrest⟩ := hverb
          obtain ⟨hfirst', hrest'⟩ := hverb'
          have hn : name = name' := congrArg Part.string (hfirst.symm.trans hfirst')
          have hv : value :: values = values' := (List.cons.inj (hrest.symm.trans hrest')).2
          rw [hset, hn, hv]
        · rw [hset]
          exact fun h => nomatch h
  · have hother := parseAssignment_other.mpr heq
    have hnone : ¬ ∃ name values, Assigns verb name values :=
      fun ⟨name, values, h⟩ => heq (assigns_equals env h)
    refine ⟨fun _ => .inl heq, fun _ => ⟨⟨fun h => absurd hother h, fun h => absurd h hnone⟩,
      fun name values h => absurd ⟨name, values, h⟩ hnone, ?_⟩⟩
    rw [hother]
    exact fun h => nomatch h

theorem assignable_literal :
    Assignable (fun _ => none) ⟨literal "NAME", [literal "=", literal "John"]⟩ :=
  (assignable_iff _ _).mpr (.inr ⟨_, _, [], ⟨rfl, rfl⟩, by decide, by decide⟩)

-- `$X` with a value `a=b`: the part behind the first one is missing
theorem expanded_equals_undefined :
    parseAssignment (fun _ => some "a=b") ⟨variable_ "X", []⟩ = .undefined ∧
    ¬ Assignable (fun _ => some "a=b") ⟨variable_ "X", []⟩ := by
  have hundefined : parseAssignment (fun _ => some "a=b") ⟨variable_ "X", []⟩ = .undefined := rfl
  exact ⟨hundefined, fun h => h.defined hundefined⟩

end OperatingSystems.Shell
