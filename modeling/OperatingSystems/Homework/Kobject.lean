import Mathlib.Data.Fintype.EquivFin
import Mathlib.Data.List.Basic
import Mathlib.Logic.Function.Basic
import Mathlib.Tactic.Common
import OperatingSystems.Library.Ascent

namespace OperatingSystems.Homework
open Ascent

-- `name` is the string in the array of that name; an object is known by its address
structure Kobject (ν : Type) where
  name : String
  parent : Option ν
  refcount : Int

structure Kset (ν : Type) where
  name : String
  kobj : ν
  members : List ν

-- the kobjects in `kset` and in the bridge stand for the address of these
structure Bus (ν : Type) where
  kset : Kset ν
  bridge : Option ν

inductive Line where
  | initialized (what name : String)
  | added (kobj kset : String)
  | hierarchy (bus : String)
  | kobject (level : Nat) (name : String)
deriving DecidableEq

def Line.text : Line → String
  | .initialized what name => "Initialized " ++ what ++ " '" ++ name ++ "'.\n"
  | .added kobj kset => "Added kobject '" ++ kobj ++ "' to kset '" ++ kset ++ "'.\n"
  | .hierarchy bus => "Hierarchy of Bus '" ++ bus ++ "':\n"
  | .kobject level name => String.join (List.replicate level "  ") ++ "kobject: " ++ name ++ "\n"

def text (lines : List Line) : String := String.join (lines.map Line.text)

abbrev Kobjects (ν : Type) := ν → Kobject ν

def parentOf {ν : Type} (s : Kobjects ν) (k : ν) : Option ν := (s k).parent

section
variable {ν : Type} [DecidableEq ν]

def kobjectInit (s : Kobjects ν) (kobj : ν) (name : String) (parent : Option ν) : Kobjects ν :=
  let s := Function.update s kobj ⟨name, parent, 1⟩
  match parent with
  | none => s
  | some p => Function.update s p { s p with refcount := (s p).refcount + 1 }

def ksetInit (s : Kobjects ν) (kobj : ν) (name : String) (parent : Option ν) :
    Kobjects ν × Kset ν :=
  (kobjectInit s kobj name parent, ⟨name, kobj, []⟩)

def ksetAdd (s : Kobjects ν) (kset : Kset ν) (kobj : ν) : Kset ν × List Line :=
  let kset := { kset with members := kset.members ++ [kobj] }
  (kset, [.added (s kobj).name kset.name])

def deviceInit (s : Kobjects ν) (device : ν) (name : String) (parent : Option ν) :
    Kobjects ν × List Line :=
  (kobjectInit s device name parent, [.initialized "Device" name])

def busInit (s : Kobjects ν) (kobj : ν) (name : String) : Kobjects ν × Bus ν × List Line :=
  let (s, kset) := ksetInit s kobj name none
  (s, ⟨kset, none⟩, [.initialized "Bus" name])

def busAddDevice (s : Kobjects ν) (bus : Bus ν) (device : ν) : Bus ν × List Line :=
  let (kset, lines) := ksetAdd s bus.kset device
  ({ bus with kset := kset }, lines)

def bridgeInit (s : Kobjects ν) (bridge : ν) (name : String) (parentBus : Bus ν) :
    Kobjects ν × List Line :=
  (kobjectInit s bridge name (some parentBus.kset.kobj), [.initialized "Device" name])

def printHierarchy (s : Kobjects ν) (kobj : ν) (level : Nat) : List Line :=
  [.kobject level (s kobj).name]

def printWithParent (s : Kobjects ν) (kobj : ν) (level : Nat) : List Line :=
  printHierarchy s kobj level ++
    match (s kobj).parent with
    | none => []
    | some parent => printHierarchy s parent (level + 1)

def printMember (s : Kobjects ν) (bus : Bus ν) (child : ν) : List Line :=
  printWithParent s child 1 ++
    match bus.bridge with
    | none => []
    | some bridge =>
      if (s child).parent = some bus.kset.kobj then printWithParent s bridge 3 else []

def busPrintHierarchy (s : Kobjects ν) (bus : Bus ν) : List Line :=
  [.hierarchy bus.kset.name] ++ [.hierarchy bus.kset.name] ++ printHierarchy s bus.kset.kobj 0 ++
    (match bus.bridge with
    | none => []
    | some bridge => printWithParent s bridge 1) ++
    bus.kset.members.flatMap (printMember s bus)

end

section
variable {ν : Type} (s : Kobjects ν) (above : ν → List ν) (bus : Bus ν)

def lineage : Nat → List ν → List Line
  | _, [] => []
  | level, k :: rest => .kobject level (s k).name :: lineage (level + 1) rest

def lineages : List Line :=
  .kobject 0 (s bus.kset.kobj).name ::
    bus.kset.members.flatMap fun member => lineage s 1 (member :: above member)

def hierarchy : List Line := .hierarchy bus.kset.name :: lineages s above bus

@[simp] theorem text_cons (line : Line) (lines : List Line) :
    text (line :: lines) = line.text ++ text lines := by
  simp [text]

theorem hierarchy_text (bus : String) :
    (Line.hierarchy bus).text = "Hierarchy of Bus '" ++ bus ++ "':\n" := rfl

theorem kobject_text (level : Nat) (name : String) : (Line.kobject level name).text =
    String.join (List.replicate level "  ") ++ "kobject: " ++ name ++ "\n" := rfl

theorem header_ne_kobject (bus name rest rest' : String) :
    (Line.hierarchy bus).text ++ rest ≠ (Line.kobject 0 name).text ++ rest' := by
  intro h
  have hheader : "Hierarchy of Bus '".toList.head? = some 'H' := by simp
  have hkobject : "kobject: ".toList.head? = some 'k' := by simp
  have hchars := congrArg String.toList h
  simp only [hierarchy_text, kobject_text, List.replicate_zero, String.join_nil,
    String.toList_append, String.toList_empty, List.nil_append] at hchars
  have hfirst := congrArg List.head? hchars
  simp only [List.head?_append, hheader, hkobject, Option.some_or] at hfirst
  exact absurd hfirst (by decide)

@[simp] theorem length_lineage (level : Nat) (l : List ν) :
    (lineage s level l).length = l.length := by
  induction l generalizing level with
  | nil => rfl
  | cons k l ih => simp [lineage, ih]

end

def Line.first : Line → Bool
  | .kobject level _ => level == 1
  | _ => false

section
variable {ν : Type} {s : Kobjects ν} {bus : Bus ν}

theorem lineage_deep (l : List ν) {level : Nat} (h : 1 < level) :
    (lineage s level l).countP Line.first = 0 := by
  induction l generalizing level with
  | nil => rfl
  | cons k l ih =>
    have hlevel : (level == 1) = false := beq_false_of_ne (by omega)
    simp [lineage, Line.first, hlevel, ih (show 1 < level + 1 by omega)]

theorem lineage_first (k : ν) (l : List ν) : (lineage s 1 (k :: l)).countP Line.first = 1 := by
  simp [lineage, Line.first, lineage_deep]

theorem lineage_short {k : ν} {l : List ν} (h : Ancestors (parentOf s) k l) (level : Nat) :
    (lineage s level (k :: l)).length ≤ 2 ↔ ∀ p, (s k).parent = some p → (s p).parent = none := by
  rw [length_lineage, List.length_cons, Nat.add_le_add_iff_right (n := 1)]
  exact ancestors_short h

theorem printWithParent_lineage {k : ν} {l : List ν} (h : Ancestors (parentOf s) k l)
    (level : Nat) : printWithParent s k level = (lineage s level (k :: l)).take 2 := by
  cases h with
  | root hp =>
    have hp : (s k).parent = none := hp
    simp [printWithParent, printHierarchy, lineage, hp]
  | child hp =>
    have hp : (s k).parent = some _ := hp
    simp [printWithParent, printHierarchy, lineage, hp]

theorem printWithParent_first (k : ν) : (printWithParent s k 1).countP Line.first = 1 := by
  unfold printWithParent
  cases (s k).parent <;> simp [printHierarchy, Line.first]

theorem printWithParent_deep (k : ν) {level : Nat} (h : 1 < level) :
    (printWithParent s k level).countP Line.first = 0 := by
  have hlevel : (level == 1) = false := beq_false_of_ne (by omega)
  unfold printWithParent
  cases (s k).parent with
  | none => simp [printHierarchy, Line.first, hlevel]
  | some p =>
    have hnext : (level + 1 == 1) = false := beq_false_of_ne (by omega)
    simp only [printHierarchy, List.cons_append, List.nil_append, List.countP_cons,
      List.countP_nil, Line.first, hlevel, hnext]
    rfl

theorem flatMap_first {f : ν → List Line} (h : ∀ m, (f m).countP Line.first = 1) (l : List ν) :
    (l.flatMap f).countP Line.first = l.length := by
  induction l with
  | nil => rfl
  | cons m l ih => rw [List.flatMap_cons, List.countP_append, h, ih, List.length_cons, Nat.add_comm]

theorem flatMap_take {f : ν → List Line} (n : ν → Nat) {l : List ν} :
    (l.flatMap fun m => (f m).take (n m)) = l.flatMap f ↔ ∀ m ∈ l, (f m).length ≤ n m := by
  have hshort (l : List ν) :
      (l.flatMap fun m => (f m).take (n m)).length ≤ (l.flatMap f).length := by
    induction l with
    | nil => exact Nat.le_refl _
    | cons m l ih =>
      simp only [List.flatMap_cons, List.length_append, List.length_take]
      omega
  induction l with
  | nil => simp
  | cons m l ih =>
    rw [List.flatMap_cons, List.flatMap_cons, List.forall_mem_cons]
    constructor
    · intro h
      have hlen := congrArg List.length h
      have hrest := hshort l
      simp only [List.length_append, List.length_take] at hlen
      have hm : (f m).length ≤ n m := by omega
      rw [List.take_of_length_le hm] at h
      exact ⟨hm, ih.mp (List.append_cancel_left h)⟩
    · rintro ⟨hm, hl⟩
      rw [List.take_of_length_le hm, ih.mpr hl]

section
variable {above : ν → List ν} (habove : ∀ k, Ancestors (parentOf s) k (above k)) {bridge k : ν}
  (hup : (s bus.kset.kobj).parent = some bridge)
include habove hup

theorem above_joined (hk : (s k).parent = some bus.kset.kobj) :
    above k = bus.kset.kobj :: bridge :: above bridge :=
  ancestors_unique (habove k) (.child hk (.child hup (habove bridge)))

theorem bridge_outside : (s bridge).parent ≠ some bus.kset.kobj := by
  intro hk
  have hlen := congrArg List.length (above_joined habove hup hk)
  simp only [List.length_cons] at hlen
  omega

end

def printedBody [DecidableEq ν] (s : Kobjects ν) (bus : Bus ν) : List Line :=
  .kobject 0 (s bus.kset.kobj).name ::
    ((bus.bridge.elim [] fun bridge => printWithParent s bridge 1) ++
      bus.kset.members.flatMap (printMember s bus))

section
variable [DecidableEq ν]

theorem busPrintHierarchy_body : busPrintHierarchy s bus =
    .hierarchy bus.kset.name :: .hierarchy bus.kset.name :: printedBody s bus := by
  unfold busPrintHierarchy printedBody
  cases bus.bridge <;> rfl

theorem printMember_first (child : ν) : (printMember s bus child).countP Line.first = 1 := by
  rw [printMember, List.countP_append, printWithParent_first]
  cases bus.bridge with
  | none => rfl
  | some bridge =>
    dsimp only
    split
    · rw [printWithParent_deep bridge (by decide)]
    · rfl

theorem printedBody_bridge {above : ν → List ν} {bridge : ν} (h : bus.bridge = some bridge) :
    printedBody s bus ≠ lineages s above bus := by
  intro he
  have hrest := congrArg (List.countP Line.first) (List.cons.inj he).2
  rw [h, Option.elim_some, List.countP_append, printWithParent_first,
    flatMap_first (fun m => printMember_first m),
    flatMap_first (fun m => lineage_first m (above m))] at hrest
  omega

theorem printedBody_members {above : ν → List ν}
    (habove : ∀ k, Ancestors (parentOf s) k (above k)) (h : bus.bridge = none) :
    printedBody s bus = lineages s above bus ↔
      ∀ m ∈ bus.kset.members, ∀ p, (s m).parent = some p → (s p).parent = none := by
  have hmember : printMember s bus = fun m => (lineage s 1 (m :: above m)).take 2 := by
    funext m
    rw [printMember, h, printWithParent_lineage (habove m), List.append_nil]
  rw [printedBody, lineages, List.cons_inj_right, h, hmember, Option.elim_none, List.nil_append,
    flatMap_take fun _ => 2]
  exact forall₂_congr fun m _ => lineage_short (habove m) 1

section
variable {above : ν → List ν} (habove : ∀ k, Ancestors (parentOf s) k (above k)) {bridge k : ν}
  (hb : bus.bridge = some bridge) (hup : (s bus.kset.kobj).parent = some bridge)
include habove hb hup

theorem printMember_joined : printMember s bus k = (lineage s 1 (k :: above k)).take
    (if (s k).parent = some bus.kset.kobj then 4 else 2) := by
  simp only [printMember, hb, printWithParent_lineage (habove _)]
  split
  · rename_i hk
    simp [above_joined habove hup hk, lineage]
  · exact List.append_nil _

-- the special case for the bridge shows what is above the bus, as far as one kobject above the
-- bridge; the bridge itself is shown as if it were a member
theorem printedBody_joined : printedBody s bus = .kobject 0 (s bus.kset.kobj).name ::
      (bridge :: bus.kset.members).flatMap (fun k => lineage s 1 (k :: above k)) ↔
    ∀ k ∈ bridge :: bus.kset.members, (s k).parent = some bus.kset.kobj ∨
      ∀ p, (s k).parent = some p → (s p).parent = none := by
  have hbridge : printWithParent s bridge 1 = printMember s bus bridge := by
    rw [printMember_joined habove hb hup, if_neg (bridge_outside habove hup),
      printWithParent_lineage (habove bridge)]
  have hmember : printMember s bus = fun k => (lineage s 1 (k :: above k)).take
      (if (s k).parent = some bus.kset.kobj then 4 else 2) :=
    funext fun k => printMember_joined habove hb hup
  rw [printedBody, hb, Option.elim_some, hbridge, ← List.flatMap_cons, List.cons_inj_right, hmember,
    flatMap_take]
  have hshort := (lineage_short (habove bridge) 1).trans
    (or_iff_right (bridge_outside habove hup)).symm
  simp only [List.forall_mem_cons, if_neg (bridge_outside habove hup)]
  rw [hshort]
  refine and_congr_right fun hbelow => forall₂_congr fun m _ => ?_
  split
  · rename_i hm
    refine iff_of_true ?_ (.inl hm)
    have hbridge : (above bridge).length ≤ 1 := (ancestors_short (habove bridge)).mpr
      (hbelow.resolve_left (bridge_outside habove hup))
    rw [length_lineage, above_joined habove hup hm]
    exact Nat.add_le_add_right hbridge 3
  · rename_i hm
    rw [lineage_short (habove m), or_iff_right hm]

end

theorem hierarchy_misprinted [Finite ν] (s : Kobjects ν) (h : Acyclic (parentOf s)) (bus : Bus ν) :
    ∃ above : ν → List ν, (∀ k, Ancestors (parentOf s) k (above k)) ∧
      text (busPrintHierarchy s bus) ≠ text (hierarchy s above bus) ∧
      ∃ body, busPrintHierarchy s bus =
          .hierarchy bus.kset.name :: .hierarchy bus.kset.name :: body ∧
        (.hierarchy bus.kset.name :: body = hierarchy s above bus ↔ bus.bridge = none ∧
          ∀ m ∈ bus.kset.members, ∀ p, (s m).parent = some p → (s p).parent = none) := by
  choose above habove using ancestors_exist (acyclic_wellFounded h)
  refine ⟨above, habove, fun he => ?_, printedBody s bus, busPrintHierarchy_body, ?_⟩
  · rw [busPrintHierarchy_body, hierarchy, lineages, text_cons, text_cons, text_cons,
      String.append_right_inj, text_cons] at he
    exact header_ne_kobject _ _ _ _ he
  · rw [hierarchy, List.cons_inj_right]
    cases hb : bus.bridge with
    | none => simpa using printedBody_members habove hb
    | some bridge => simpa using printedBody_bridge hb

end

end

-- two buses, joined by a bridge that hangs on the first one and that the second one knows of
def joinedBuses : Kobjects (Fin 6) × Bus (Fin 6) × Bus (Fin 6) :=
  let s : Kobjects (Fin 6) := fun _ => ⟨"", none, 0⟩
  let (s, busA, _) := busInit s 0 "BusA"
  let (s, _) := deviceInit s 1 "Device_a" (some busA.kset.kobj)
  let (s, _) := deviceInit s 2 "Device_b" (some busA.kset.kobj)
  let (s, busB, _) := busInit s 3 "BusB"
  let (s, _) := bridgeInit s 4 "BusA2BusB" busA
  let (kset, _) := ksetAdd s busA.kset 4
  let busA := { busA with kset := kset }
  let busB := { busB with bridge := some 4 }
  let (s, _) := deviceInit s 5 "Device_c" (some busB.kset.kobj)
  let (busA, _) := busAddDevice s busA 1
  let (busA, _) := busAddDevice s busA 2
  let (busB, _) := busAddDevice s busB 5
  (s, busA, busB)

theorem hierarchy_misprinted_joined :
    ∃ above : Fin 6 → List (Fin 6), (∀ k, Ancestors (parentOf joinedBuses.1) k (above k)) ∧
      text (busPrintHierarchy joinedBuses.1 joinedBuses.2.2) ≠
        text (hierarchy joinedBuses.1 above joinedBuses.2.2) := by
  have hacyclic : Acyclic (parentOf joinedBuses.1) := acyclic_of_rank Fin.val (by decide)
  obtain ⟨above, habove, htext, -⟩ := hierarchy_misprinted joinedBuses.1 hacyclic joinedBuses.2.2
  exact ⟨above, habove, htext⟩

-- here the lines behind the headers are those that the traces expect
example : busPrintHierarchy joinedBuses.1 joinedBuses.2.2 =
    [.hierarchy "BusB", .hierarchy "BusB", .kobject 0 "BusB", .kobject 1 "BusA2BusB",
      .kobject 2 "BusA", .kobject 1 "Device_c", .kobject 2 "BusB", .kobject 3 "BusA2BusB",
      .kobject 4 "BusA"] := by decide

-- a device below a device below a device of the bus
def nestedDevices : Kobjects (Fin 4) × Bus (Fin 4) :=
  let s : Kobjects (Fin 4) := fun _ => ⟨"", none, 0⟩
  let (s, bus, _) := busInit s 0 "BusA"
  let (s, _) := deviceInit s 1 "Device_a" (some bus.kset.kobj)
  let (s, _) := deviceInit s 2 "Device_b" (some 1)
  let (s, _) := deviceInit s 3 "Device_c" (some 2)
  let (bus, _) := busAddDevice s bus 3
  (s, bus)

theorem hierarchy_cut : Acyclic (parentOf nestedDevices.1) ∧
    busPrintHierarchy nestedDevices.1 nestedDevices.2 =
      [.hierarchy "BusA", .hierarchy "BusA", .kobject 0 "BusA", .kobject 1 "Device_c",
        .kobject 2 "Device_b"] ∧
    ∃ above : Fin 4 → List (Fin 4), (∀ k, Ancestors (parentOf nestedDevices.1) k (above k)) ∧
      hierarchy nestedDevices.1 above nestedDevices.2 =
        [.hierarchy "BusA", .kobject 0 "BusA", .kobject 1 "Device_c", .kobject 2 "Device_b",
          .kobject 3 "Device_a", .kobject 4 "BusA"] ∧
      text (busPrintHierarchy nestedDevices.1 nestedDevices.2) ≠
        text (hierarchy nestedDevices.1 above nestedDevices.2) := by
  have hbus : Ancestors (parentOf nestedDevices.1) 0 [] := .root (by decide)
  have ha : Ancestors (parentOf nestedDevices.1) 1 [0] := .child (by decide) hbus
  have hb : Ancestors (parentOf nestedDevices.1) 2 [1, 0] := .child (by decide) ha
  have hc : Ancestors (parentOf nestedDevices.1) 3 [2, 1, 0] := .child (by decide) hb
  refine ⟨acyclic_of_rank Fin.val (by decide), by decide,
    fun k => [[], [0], [1, 0], [2, 1, 0]].getD k.val [], fun k => ?_, by decide, by decide⟩
  match k with
  | 0 => exact hbus
  | 1 => exact ha
  | 2 => exact hb
  | 3 => exact hc

end OperatingSystems.Homework
