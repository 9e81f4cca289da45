import ComponentSheet.Macro.Kind
import ComponentSheet.Selector.Segment

/-! Selector text cut at its macro calls, also at those inside the arguments of pseudo-classes,
pseudo-elements and of functions that are no macros. Nothing is lost: the texts of the parts make
up the text that was cut. -/

namespace ComponentSheet.Macro

open Selector

inductive Part where
  | plain (text : Text)
  | call (kind : Kind) (params : Text)
  /-- A call whose parenthesis is never closed, with all the text behind it. -/
  | openCall (kind : Kind) (rest : Text)
deriving DecidableEq, Repr

def Part.text : Part → Text
  | .plain text => text
  | .call kind params => kind.name ++ '(' :: params ++ [')']
  | .openCall kind rest => kind.name ++ '(' :: rest

def Part.isCall : Part → Bool
  | .plain _ => false
  | _ => true

/-- The kind that a name stands for, if it is one of `kinds`. -/
def kindAmong? (kinds : List Kind) (name : Text) : Option Kind :=
  (Kind.ofName? name).filter (kinds.contains ·)

theorem name_of_kindAmong? {kinds : List Kind} {n : Text} {k : Kind}
    (h : kindAmong? kinds n = some k) : k.name = n :=
  Kind.ofName?_eq_some_iff.1 (Option.filter_eq_some_iff.1 h).1

/-- The part that a segment is if it is a call of one of `kinds`. -/
def callPart? (kinds : List Kind) : Segment → Option Part
  | .token (.function name args) => (kindAmong? kinds name).map (.call · args)
  | .token (.openFunction name rest) => (kindAmong? kinds name).map (.openCall · rest)
  | _ => none

theorem text_of_callPart? {kinds : List Kind} {g : Segment} {p : Part}
    (h : callPart? kinds g = some p) : p.text = g.text := by
  revert h
  fun_cases callPart? kinds g <;> simp only [Option.map_eq_some_iff, reduceCtorEq, false_imp_iff]
  all_goals
    rintro ⟨k, hk, rfl⟩
    simp [Part.text, Segment.text, Token.applied, name_of_kindAmong? hk]

/-- The arguments of a segment, after the text in front of them. -/
def arguments? : Segment → Option (Text × Text)
  | .blanks _ => none
  | .token t => t.arguments?

theorem text_of_arguments? {g : Segment} {opening args : Text}
    (h : arguments? g = some (opening, args)) : g.text = opening ++ args ++ [')'] := by
  cases g with
  | blanks => simp [arguments?] at h
  | token t => exact Token.lexeme_of_arguments? h

theorem length_arguments_lt {b : Bool} {c : Char} {s opening args : Text}
    (h : arguments? (Reading.segment b c s).1 = some (opening, args)) :
    args.length < (c :: s).length := by
  have ht := text_of_arguments? h
  have hs := congrArg List.length (Reading.segment_append b c s)
  simp only [ht, List.length_append, List.length_cons, List.length_nil] at hs ⊢
  omega

/-- The parts of a text that goes on inside a compound or not, cut at the calls of `kinds`. -/
def partsFrom (kinds : List Kind) (inCompound : Bool) : Text → List Part
  | [] => []
  | c :: s =>
    let r := Reading.segment inCompound c s
    let here :=
      match callPart? kinds r.1 with
      | some p => [p]
      | none =>
        match h : arguments? r.1 with
        | some (opening, args) => .plain opening :: partsFrom kinds false args ++ [.plain [')']]
        | none => [.plain r.1.text]
    here ++ partsFrom kinds (r.1.continues inCompound) r.2
termination_by s => s.length
decreasing_by
  · exact length_arguments_lt h
  · exact Reading.length_segment_lt _ _ _

def parts (kinds : List Kind) (s : Text) : List Part :=
  partsFrom kinds false s

def textOf (l : List Part) : Text :=
  l.flatMap Part.text

@[simp] theorem textOf_nil : textOf [] = [] := rfl

@[simp] theorem textOf_cons {p : Part} {l : List Part} : textOf (p :: l) = p.text ++ textOf l := rfl

@[simp] theorem textOf_append {l m : List Part} : textOf (l ++ m) = textOf l ++ textOf m := by
  simp [textOf]

theorem textOf_partsFrom (kinds : List Kind) (inCompound : Bool) (s : Text) :
    textOf (partsFrom kinds inCompound s) = s := by
  fun_induction partsFrom kinds inCompound s with
  | case1 => rfl
  | case2 b c s r here ihArguments ihRest =>
    have hr : textOf here = r.1.text := by
      simp only [here]
      split
      · rename_i p hp
        simp [textOf, text_of_callPart? hp]
      · split
        · rename_i opening args ha
          simp [ihArguments opening args ha, text_of_arguments? ha, Part.text]
        · simp [textOf, Part.text]
    rw [textOf_append, hr, ihRest]
    exact Reading.segment_append b c s

theorem textOf_parts (kinds : List Kind) (s : Text) : textOf (parts kinds s) = s :=
  textOf_partsFrom kinds false s

end ComponentSheet.Macro
