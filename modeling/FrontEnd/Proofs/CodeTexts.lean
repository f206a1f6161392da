import Mathlib.Data.List.Forall2
import Mathlib.Data.List.TakeWhile
import FrontEnd.Proofs.Meaning

namespace FrontEnd

/-- A text is written with each quote twice. -/
inductive Doubled : List Char → List Char → Prop
  | nil : Doubled [] []
  | quote {cs ds} (h : Doubled cs ds) : Doubled ('"' :: cs) ('"' :: '"' :: ds)
  | other {c cs ds} (hc : c ≠ '"') (h : Doubled cs ds) : Doubled (c :: cs) (c :: ds)

theorem doubled_flatMap (cs : List Char) :
    Doubled cs (cs.flatMap fun c => if c = '"' then ['"', '"'] else [c]) := by
  induction cs with
  | nil => exact .nil
  | cons c cs ih =>
    rw [List.flatMap_cons]
    by_cases hc : c = '"'
    · rw [if_pos hc, hc]
      exact .quote ih
    · rw [if_neg hc]
      exact .other hc ih

/-- The text is what stands behind the last point of a qualified name, or the name if it has no
point. -/
structure IsUnqualified (target base : String) : Prop where
  no_point : '.' ∉ base.toList
  behind : target = base ∨ ∃ qualifier, target = qualifier ++ "." ++ base

theorem isUnqualified_unqualified (target : String) :
    IsUnqualified target (Ty.unqualified target) := by
  generalize hbase : target.toList.reverse.takeWhile (· != '.') = cs
  have hunqualified : Ty.unqualified target = String.ofList cs.reverse := by rw [Ty.unqualified, hbase]
  have hsplit := List.takeWhile_append_dropWhile (p := (· != '.')) (l := target.toList.reverse)
  rw [hbase] at hsplit
  -- The name is searched from its end, so the parts are met backwards.
  constructor
  case no_point =>
    rw [hunqualified, String.toList_ofList, List.mem_reverse, ← hbase]
    intro hpoint
    have hne := List.mem_takeWhile_imp hpoint
    simp at hne
  case behind =>
    rw [hunqualified]
    generalize hrest : target.toList.reverse.dropWhile (· != '.') = rest at hsplit
    cases rest with
    | nil =>
      left
      apply String.toList_injective
      rw [String.toList_ofList, ← List.append_nil cs, hsplit, List.reverse_reverse]
    | cons c rest =>
      right
      have hc : c = '.' := by
        have hhead := List.head?_dropWhile_not (· != '.') target.toList.reverse
        rw [hrest] at hhead
        simpa using hhead
      refine ⟨String.ofList rest.reverse, ?_⟩
      apply String.toList_injective
      have hreverse := congrArg List.reverse hsplit
      rw [List.reverse_reverse] at hreverse
      rw [← hreverse, hc]
      simp

namespace Term

/-- The text spells the term. -/
inductive Spelled : Term → String → Prop
  | true : Spelled (.bool true) "True"
  | false : Spelled (.bool false) "False"
  | int (n : Int64) : Spelled (.int n) (toString n.toInt)
  | find {s : String} {ds : List Char} (hs : Doubled s.toList ds) :
    Spelled (.find s) ("Find (Self.Unit.TDH.Symbols, \"" ++ String.ofList ds ++ "\")")
  | var (x : String) : Spelled (.var x) x
  | getSymbol {t s} (ht : Spelled t s) : Spelled (.getSymbol t) ("Get_Symbol (" ++ s ++ ")")
  | field {t s} (ht : Spelled t s) (name : String) :
    Spelled (.field t name) (s ++ "." ++ componentName name)
  | entries {e k r es ks rs} (he : Spelled e es) (hk : Spelled k ks) (hr : Spelled r rs) :
    Spelled (.lookup e k none r false)
      ("Create (AST_Envs.Get (Self => " ++ es ++ ", Key => " ++ ks ++ ", Recursive => " ++ rs ++
        "))")
  | entriesBefore {e k b r es ks bs rs} (he : Spelled e es) (hk : Spelled k ks)
    (hb : Spelled b bs) (hr : Spelled r rs) :
    Spelled (.lookup e k (some b) r false)
      ("Create (AST_Envs.Get (Self => " ++ es ++ ", Key => " ++ ks ++ ", From => " ++ bs ++
        ", Recursive => " ++ rs ++ "))")
  | first {e k r es ks rs} (he : Spelled e es) (hk : Spelled k ks) (hr : Spelled r rs) :
    Spelled (.lookup e k none r true)
      ("Get (AST_Envs.Get (Self => " ++ es ++ ", Key => " ++ ks ++ ", Recursive => " ++ rs ++
        "), 0)")
  | firstBefore {e k b r es ks bs rs} (he : Spelled e es) (hk : Spelled k ks)
    (hb : Spelled b bs) (hr : Spelled r rs) :
    Spelled (.lookup e k (some b) r true)
      ("Get (AST_Envs.Get (Self => " ++ es ++ ", Key => " ++ ks ++ ", From => " ++ bs ++
        ", Recursive => " ++ rs ++ "), 0)")
  | call (callee : String) {ts ss} (hts : List.Forall₂ Spelled ts ss) :
    Spelled (.call callee ts) (callee ++ " (" ++ ", ".intercalate ss ++ ")")
  | envNode {t s} (ht : Spelled t s) : Spelled (.envNode t) (s ++ ".Node")
  | emptyArray {element : Ty} {base} (hbase : IsUnqualified element.target base) :
    Spelled (.array element []) (base ++ "_Array'(1 .. 0 => <>)")
  | singleton {element : Ty} {base t s} (hbase : IsUnqualified element.target base)
    (ht : Spelled t s) : Spelled (.array element [t]) (base ++ "_Array'(1 => " ++ s ++ ")")
  | array {element : Ty} {base t u ts ss} (hbase : IsUnqualified element.target base)
    (hts : List.Forall₂ Spelled (t :: u :: ts) ss) :
    Spelled (.array element (t :: u :: ts)) (base ++ "_Array'(" ++ ", ".intercalate ss ++ ")")

theorem find_spelled (s : String) : (find s).Spelled (find s).text := by
  have hopen : "Find (Self.Unit.TDH.Symbols, \"" = "Find (Self.Unit.TDH.Symbols, " ++ "\"" := by
    decide
  have hclose : "\")" = "\"" ++ ")" := by decide
  have htext : (find s).text = "Find (Self.Unit.TDH.Symbols, " ++ stringLiteral s ++ ")" := rfl
  have hspelled := Spelled.find (doubled_flatMap s.toList)
  rw [htext, stringLiteral]
  simpa only [hopen, hclose, String.append_assoc] using hspelled

theorem field_spelled {t : Term} (ht : t.Spelled t.text) (name : String) :
    (field t name).Spelled (field t name).text := by
  have hpoint : ".F_" = "." ++ "F_" := by decide
  have htext : (field t name).text = t.text ++ ".F_" ++ (Name.ofLower name).canonical := rfl
  have hspelled := Spelled.field ht name
  rw [componentName] at hspelled
  rw [htext]
  simpa only [hpoint, String.append_assoc] using hspelled

theorem lookup_spelled {e k r : Term} {boundary : Option Term} (he : e.Spelled e.text)
    (hk : k.Spelled k.text) (hb : ∀ b ∈ boundary, b.Spelled b.text) (hr : r.Spelled r.text)
    (unique : Bool) :
    (lookup e k boundary r unique).Spelled (lookup e k boundary r unique).text := by
  have hcreate : "Create (AST_Envs.Get (Self => " = "Create (" ++ "AST_Envs.Get (Self => " := by
    decide
  have hget : "Get (AST_Envs.Get (Self => " = "Get (" ++ "AST_Envs.Get (Self => " := by decide
  have hend : "))" = ")" ++ ")" := by decide
  have hfirst : "), 0)" = ")" ++ ", 0)" := by decide
  have htext : (lookup e k boundary r unique).text =
      lookupValue unique ("AST_Envs.Get (Self => " ++ e.text ++ ", Key => " ++ k.text ++
        boundaryText boundary ++ ", Recursive => " ++ r.text ++ ")") := rfl
  -- A lookup has a form of its own with or without a boundary, for one entry or for all.
  rw [htext]
  cases boundary with
  | none =>
    have hnone : boundaryText none = "" := rfl
    rw [hnone, String.append_empty]
    cases unique with
    | false =>
      have hspelled := Spelled.entries he hk hr
      change Spelled _ ("Create (" ++ _ ++ ")")
      simpa only [hcreate, hend, String.append_assoc] using hspelled
    | true =>
      have hspelled := Spelled.first he hk hr
      change Spelled _ ("Get (" ++ _ ++ ", 0)")
      simpa only [hget, hfirst, String.append_assoc] using hspelled
  | some b =>
    have hb : b.Spelled b.text := hb b rfl
    have hsome : boundaryText (some b) = ", From => " ++ b.text := rfl
    rw [hsome]
    cases unique with
    | false =>
      have hspelled := Spelled.entriesBefore he hk hb hr
      change Spelled _ ("Create (" ++ _ ++ ")")
      simpa only [hcreate, hend, String.append_assoc] using hspelled
    | true =>
      have hspelled := Spelled.firstBefore he hk hb hr
      change Spelled _ ("Get (" ++ _ ++ ", 0)")
      simpa only [hget, hfirst, String.append_assoc] using hspelled

theorem array_spelled (element : Ty) {ts : List Term} (hts : List.Forall₂ Spelled ts (texts ts)) :
    (array element ts).Spelled (array element ts).text := by
  have hbase := isUnqualified_unqualified element.target
  have htext : (array element ts).text =
      Ty.unqualified element.target ++ "_Array" ++ "'" ++ aggregate (texts ts) := rfl
  have hname : "_Array'(" = "_Array" ++ ("'" ++ "(") := by decide
  have hnone : "_Array'(1 .. 0 => <>)" = "_Array" ++ ("'" ++ "(1 .. 0 => <>)") := by decide
  have hone : "_Array'(1 => " = "_Array" ++ ("'" ++ "(1 => ") := by decide
  rw [htext]
  rcases ts with _ | ⟨t, _ | ⟨u, ts⟩⟩
  · have hspelled := Spelled.emptyArray hbase
    change Spelled _ (_ ++ "_Array" ++ "'" ++ "(1 .. 0 => <>)")
    simpa only [hnone, String.append_assoc] using hspelled
  · rw [texts, texts] at hts
    have ht : t.Spelled t.text := by
      cases hts
      assumption
    have hspelled := Spelled.singleton hbase ht
    change Spelled _ (_ ++ "_Array" ++ "'" ++ ("(1 => " ++ t.text ++ ")"))
    simpa only [hone, String.append_assoc] using hspelled
  · have hspelled := Spelled.array hbase hts
    change Spelled _ (_ ++ "_Array" ++ "'" ++ ("(" ++ ", ".intercalate (texts (t :: u :: ts)) ++ ")"))
    simpa only [hname, String.append_assoc] using hspelled

mutual

theorem text_spelled : (t : Term) → t.Spelled t.text
  | bool true => .true
  | bool false => .false
  | int n => .int n
  | find s => find_spelled s
  | var x => .var x
  | getSymbol t => .getSymbol (text_spelled t)
  | field t name => field_spelled (text_spelled t) name
  | lookup e k boundary r unique =>
    lookup_spelled (text_spelled e) (text_spelled k) (boundary_spelled boundary) (text_spelled r)
      unique
  | call callee ts => .call callee (texts_spelled ts)
  | envNode t => .envNode (text_spelled t)
  | array element ts => array_spelled element (texts_spelled ts)

theorem boundary_spelled : (boundary : Option Term) → ∀ b ∈ boundary, b.Spelled b.text
  | none => by simp
  | some t => by
    have ht : t.Spelled t.text := text_spelled t
    simpa using ht

theorem texts_spelled : (ts : List Term) → List.Forall₂ Spelled ts (texts ts)
  | [] => .nil
  | t :: ts => .cons (text_spelled t) (texts_spelled ts)

end

end Term

/-- The text spells the statement. -/
inductive Statement.Spelled : Statement → String → Prop
  | assign (x : String) {value s} (hv : value.Spelled s) :
    Spelled (.assign x value) (x ++ " := " ++ s ++ ";")
  | retain (x : String) : Spelled (.retain x) ("Inc_Ref (" ++ x ++ ");")

theorem Statement.text_spelled (st : Statement) : st.Spelled st.text := by
  cases st with
  | assign x value => exact .assign x value.text_spelled
  | retain x => exact .retain x

/-- The text has the statements, in their order and each behind a line end from the one before. -/
def Statement.SpelledAll (statements : List Statement) (text : String) : Prop :=
  ∃ lines, List.Forall₂ Spelled statements lines ∧ text = "\n".intercalate lines

theorem Resolved.preText_spelled (r : Resolved) : Statement.SpelledAll r.statements r.preText := by
  refine ⟨r.statements.map Statement.text, ?_, rfl⟩
  rw [List.forall₂_map_right_iff, List.forall₂_same]
  exact fun st _ => st.text_spelled

end FrontEnd
