import Deferral.Text.Quoted

/-!
# Values shown as text

A value is shown as a tree of atoms, lists, constructors with arguments, and records. A tree has two
printed forms: on one line, and spread out, where each argument, item or field has a line of its
own.
-/

namespace Deferral.Text

/-- The structure of something that is shown, before it is laid out on one line or on several. -/
inductive Shown where
  | atom (text : String)
  | list (items : List Shown)
  | apply (constructor : String) (arguments : List Shown)
  /-- A record, and whether all of its fields are shown. -/
  | record (name : String) (fields : List (String × Shown)) (complete : Bool)

namespace Shown

/-- A text is shown in quotes. -/
def text (text : String) : Shown := .atom (quoted text)

mutual

/-- Everything on one line. -/
def line : Shown → String
  | .atom text => text
  | .list items => "[" ++ ", ".intercalate (lines items) ++ "]"
  | .apply constructor arguments =>
      constructor ++ "(" ++ ", ".intercalate (lines arguments) ++ ")"
  | .record name fields complete =>
      let inside := fieldLines fields ++ if complete then [] else [".."]
      name ++ " \x7b " ++ ", ".intercalate inside ++ " \x7d"

/-- Each tree on one line. -/
def lines : List Shown → List String
  | [] => []
  | tree :: trees => tree.line :: lines trees

/-- Each field on one line, behind its name. -/
def fieldLines : List (String × Shown) → List String
  | [] => []
  | (name, tree) :: fields => (name ++ ": " ++ tree.line) :: fieldLines fields

end

/-- The blanks before a line at a depth. -/
def indent (depth : Nat) : String := String.ofList (List.replicate (4 * depth) ' ')

/-- Entries between brackets, each of them on a line of its own and indented by one level more.
Nothing stands between the brackets if there are none. -/
def spreadBetween (opening closing : String) (depth : Nat) (inside : List String) : String :=
  if inside.isEmpty then opening ++ closing
  else
    opening ++ "\n" ++ String.join (inside.map (indent (depth + 1) ++ · ++ "\n")) ++ indent depth
      ++ closing

mutual

/-- The tree spread out, when it begins at a depth. -/
def spread (depth : Nat) : Shown → String
  | .atom text => text
  | .list items => spreadBetween "[" "]" depth (spreads (depth + 1) items)
  | .apply constructor arguments =>
      constructor ++ spreadBetween "(" ")" depth (spreads (depth + 1) arguments)
  | .record name fields complete =>
      let inside := fieldSpreads (depth + 1) fields ++ if complete then [] else [".."]
      name ++ " " ++ spreadBetween "\x7b" "\x7d" depth inside

/-- Each tree spread over lines, with a comma behind it. -/
def spreads (depth : Nat) : List Shown → List String
  | [] => []
  | tree :: trees => (tree.spread depth ++ ",") :: spreads depth trees

/-- Each field spread over lines, behind its name and with a comma behind it. -/
def fieldSpreads (depth : Nat) : List (String × Shown) → List String
  | [] => []
  | (name, tree) :: fields =>
      (name ++ ": " ++ tree.spread depth ++ ",") :: fieldSpreads depth fields

end

/-- The tree spread out over several lines. -/
def pretty (tree : Shown) : String := tree.spread 0

example : (apply "Success" [.list [.atom "1"]]).pretty =
    "Success(\n    [\n        1,\n    ],\n)" := by decide +kernel

end Shown

/-- Data that can be shown. -/
class Show (α : Type) where
  shown : α → Shown

instance : Show Unit := ⟨fun _ => .atom "()"⟩
instance : Show Bool := ⟨fun flag => .atom (if flag then "true" else "false")⟩
instance : Show String := ⟨.text⟩
instance : Show Int64 := ⟨fun number => .atom (toString number.toInt)⟩
instance : Show UInt64 := ⟨fun number => .atom (toString number.toNat)⟩
instance : Show Nat := ⟨fun number => .atom (toString number)⟩

instance {α : Type} [Show α] : Show (List α) :=
  ⟨fun items => .list (items.map Show.shown)⟩

instance {α : Type} [Show α] : Show (Option α) :=
  ⟨fun
    | none => .atom "None"
    | some value => .apply "Some" [Show.shown value]⟩

end Deferral.Text
