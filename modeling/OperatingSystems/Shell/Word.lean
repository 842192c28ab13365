import Mathlib.Data.List.Basic
import Mathlib.Logic.Function.Basic
import Mathlib.Tactic.Common

namespace OperatingSystems.Shell

-- a `word_t` without its links
structure Part where
  string : String
  expand : Bool
deriving DecidableEq

def literal (string : String) : Part := ⟨string, false⟩

def variable_ (name : String) : Part := ⟨name, true⟩

-- the parts along `next_part`; the parser gives every word at least one
structure Word where
  first : Part
  rest : List Part
deriving DecidableEq

def Word.parts (w : Word) : List Part := w.first :: w.rest

abbrev Env := String → Option String

def Part.substring (env : Env) (s : Part) : String :=
  if s.expand then (env s.string).getD "" else s.string

-- `NULL` is the empty list of parts, and the result is `NULL` only there
def getWord (env : Env) (s : List Part) : Option String :=
  s.foldl (fun string part => some (string.getD "" ++ part.substring env)) none

def expansion (env : Env) : List Part → String
  | [] => ""
  | part :: parts => part.substring env ++ expansion env parts

def Word.expansion (env : Env) (w : Word) : String := Shell.expansion env w.parts

structure SimpleCommand where
  verb : Word
  params : List Word
  in_ : List Word
  out : List Word
  err : List Word
  ioFlags : Nat

def firstParts (words : List Word) : List Part := (words.head?.map Word.parts).getD []

def getArgv (env : Env) (s : SimpleCommand) : Option (List String) := do
  let verb ← getWord env s.verb.parts
  let params ← s.params.mapM fun param => getWord env param.parts
  return verb :: params

theorem getWord_loop (env : Env) (s : List Part) (string : String) :
    s.foldl (fun string part => some (string.getD "" ++ part.substring env)) (some string) =
      some (string ++ expansion env s) := by
  induction s generalizing string with
  | nil => simp [expansion]
  | cons part s ih => simp [expansion, ih, String.append_assoc]

theorem getWord_cons (env : Env) (part : Part) (s : List Part) :
    getWord env (part :: s) = some (expansion env (part :: s)) := by
  rw [getWord, List.foldl_cons, getWord_loop]
  simp [expansion]

theorem getWord_parts (env : Env) (w : Word) : getWord env w.parts = some (w.expansion env) :=
  getWord_cons env w.first w.rest

theorem getArgv_expansion (env : Env) (s : SimpleCommand) :
    getArgv env s = some (s.verb.expansion env :: s.params.map (Word.expansion env)) := by
  have hparams : s.params.mapM (fun param => some (param.expansion env)) =
      some (s.params.map (Word.expansion env)) := List.mapM_pure
  simp only [getArgv, getWord_parts, hparams]
  rfl

end OperatingSystems.Shell
