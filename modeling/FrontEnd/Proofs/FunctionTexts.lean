import Mathlib.Data.List.Forall2
import FrontEnd.Property.Function

namespace FrontEnd

/-- What a line shows: a carriage return at its end belongs to the line end. -/
inductive Trimmed : String → String → Prop
  | carriage (s : String) : Trimmed (s ++ "\r") s
  | plain {s : String} (hs : s.toList.getLast? ≠ some '\r') : Trimmed s s

/-- The text is cut at its line ends into lines that show these texts. Those that show nothing are
left out. -/
def IsCut (text : String) (shown : List String) : Prop :=
  ∃ lines trimmed last, (∀ l ∈ last :: lines, '\n' ∉ l.toList) ∧
    text = String.join (lines.map (· ++ "\n")) ++ last ∧
    List.Forall₂ Trimmed lines trimmed ∧ shown = (trimmed ++ [last]).filter (· ≠ "")

namespace FunctionContext

theorem trimmed_withoutReturn (l : List Char) :
    Trimmed (String.ofList l) (String.ofList (withoutReturn l)) := by
  unfold withoutReturn
  split
  · next hlast =>
    have hl : String.ofList l = String.ofList l.dropLast ++ "\r" := by
      apply String.toList_injective
      simpa using (List.dropLast_append_getLast? '\r' hlast).symm
    rw [hl]
    exact .carriage _
  · next hlast => exact .plain (by simpa using hlast)

theorem linesFrom_split (line cs : List Char) (hline : '\n' ∉ line) :
    ∃ ls last, line.reverse ++ cs = ls.flatMap (· ++ ['\n']) ++ last ∧
      (∀ l ∈ last :: ls, '\n' ∉ l) ∧
      linesFrom line cs = ls.map withoutReturn ++ if last.isEmpty then [] else [last] := by
  -- The line begun grows with each character and ends at a line end.
  induction cs generalizing line with
  | nil =>
    refine ⟨[], line.reverse, by simp, by simpa using hline, ?_⟩
    simp [linesFrom]
  | cons c cs ih =>
    by_cases hc : c = '\n'
    · obtain ⟨ls, last, hsplit, hwhole, hlines⟩ := ih [] List.not_mem_nil
      refine ⟨line.reverse :: ls, last, ?_, ?_, ?_⟩
      · rw [List.reverse_nil, List.nil_append] at hsplit
        simp [hsplit, hc]
      · simpa [hline] using hwhole
      · rw [linesFrom, if_pos hc, hlines, List.map_cons, List.cons_append]
    · obtain ⟨ls, last, hsplit, hwhole, hlines⟩ := ih (c :: line) (by simp [hline, Ne.symm hc])
      refine ⟨ls, last, ?_, hwhole, ?_⟩
      · rw [← hsplit]
        simp
      · rw [linesFrom, if_neg hc, hlines]

theorem filledLines_isCut (text : String) : IsCut text (filledLines text) := by
  obtain ⟨ls, last, hsplit, hwhole, hlines⟩ := linesFrom_split [] text.toList List.not_mem_nil
  refine ⟨ls.map String.ofList, ls.map fun l => String.ofList (withoutReturn l), String.ofList last,
    ?_, ?_, ?_, ?_⟩
  · simpa using hwhole
  · apply String.toList_injective
    rw [List.reverse_nil, List.nil_append] at hsplit
    simpa [List.flatMap_map, Function.comp_def] using hsplit
  · rw [List.forall₂_map_left_iff, List.forall₂_map_right_iff, List.forall₂_same]
    exact fun l _ => trimmed_withoutReturn l
  · have hfilled : ((fun s : String => decide (s ≠ "")) ∘ String.ofList) = (!·.isEmpty) := by
      funext l
      cases l <;> simp
    rw [filledLines, hlines, ← hfilled, ← List.filter_map, List.map_append, List.map_map,
      List.filter_append, List.filter_append]
    cases last <;> simp [Function.comp_def]

/-- The lines before the statements. -/
def headLines (f : FunctionContext) : List String :=
  ["function " ++ f.functionName,
    "  (Node : access " ++ f.owner ++ "_Type'Class" ++
      (if f.hasImplicitEnv then "; Current_Env : AST_Envs.Lexical_Env)" else ")"),
    "   return " ++ f.returnType,
    "is",
    "   Self : " ++ f.owner ++ " := " ++ f.owner ++ " (Node);"] ++
  f.vars.map (fun v => "   " ++ v.name ++ " : " ++ v.typeName ++ ";") ++
  ["   Property_Result : " ++ f.returnType ++ ";",
    "begin"]

def releaseLines (f : FunctionContext) : List String :=
  (f.vars.filter (·.isRefCounted)).map fun v => "Dec_Ref (" ++ v.name ++ ");"

/-- The statements behind those of the property. -/
def closingLines (f : FunctionContext) : List String :=
  ["Property_Result := " ++ f.result ++ ";"] ++
  (if f.returnsRefCounted then ["Inc_Ref (Property_Result);"] else []) ++
  f.releaseLines ++
  ["return Property_Result;"]

/-- The lines between the statements and the end, for exceptions. -/
def handlerLines (f : FunctionContext) : List String :=
  if ∃ v ∈ f.vars, v.isRefCounted = true then
    ["exception",
      "   when Property_Error =>"] ++
    (f.releaseLines ++ ["raise;"]).map ("      " ++ ·)
  else []

/-- How a function is written, line by line, where `shown` are the lines of its property. -/
def writtenLines (f : FunctionContext) (shown : List String) : List String :=
  f.headLines ++ (shown ++ f.closingLines).map ("   " ++ ·) ++ f.handlerLines ++
    ["end " ++ f.functionName ++ ";"]

def IsWritten (f : FunctionContext) (text : String) : Prop :=
  ∃ shown, IsCut f.pre shown ∧ text = String.join ((f.writtenLines shown).map (· ++ "\n"))

theorem indentedAll_eq (indent : String) (lines : List String) :
    String.join (lines.map (indented indent)) =
      String.join ((lines.map (indent ++ ·)).map (· ++ "\n")) := by
  rw [List.map_map]
  rfl

theorem releaseLines_eq (f : FunctionContext) : f.releases.map Closing.text = f.releaseLines := by
  rw [releases, releaseLines, List.map_map]
  rfl

theorem closingLines_eq (f : FunctionContext) : f.closing.map Closing.text = f.closingLines := by
  rw [closingLines, closing, ← f.releaseLines_eq]
  cases f.returnsRefCounted
  all_goals
    simp only [List.map_append, List.map_cons, List.map_nil, if_true, if_false, Bool.false_eq_true]
    rfl

theorem handlerLines_of_none {f : FunctionContext} (h : f.handler = none) :
    f.handlerLines = [] := by
  rw [handler] at h
  split at h
  · cases h
  · next hshared =>
    rw [List.any_eq_true] at hshared
    exact if_neg hshared

theorem handlerLines_of_some {f : FunctionContext} {statements : List Closing}
    (h : f.handler = some statements) : f.handlerLines =
      ["exception", "   when Property_Error =>"] ++
        (statements.map Closing.text).map ("      " ++ ·) := by
  rw [handler] at h
  split at h
  · next hshared =>
    rw [List.any_eq_true] at hshared
    cases h
    rw [handlerLines, if_pos hshared, List.map_append (f := Closing.text), f.releaseLines_eq]
    rfl
  · cases h

theorem handlerText_eq (f : FunctionContext) :
    f.handlerText = String.join (f.handlerLines.map (· ++ "\n")) := by
  rw [handlerText]
  cases h : f.handler with
  | none => rw [handlerLines_of_none h, List.map_nil, String.join_nil]
  | some statements =>
    have hopening : "exception\n   when Property_Error =>\n" =
        "exception" ++ "\n" ++ ("   when Property_Error =>" ++ "\n") := by decide
    rw [handlerLines_of_some h, List.map_append, String.join_append, ← indentedAll_eq, List.map_map]
    dsimp only
    rw [hopening]
    simp only [List.map_cons, List.map_nil, String.join_cons, String.join_nil, String.append_empty]
    rfl

theorem headLines_eq (f : FunctionContext) : String.join (f.headLines.map (· ++ "\n")) =
    "function " ++ f.functionName ++ "\n" ++ "  " ++ f.parameters ++ "\n" ++
    "   return " ++ f.returnType ++ "\n" ++ "is\n" ++
    indented "   " ("Self : " ++ f.owner ++ " := " ++ f.owner ++ " (Node);") ++
    String.join (f.vars.map fun v => indented "   " (v.name ++ " : " ++ v.typeName ++ ";")) ++
    indented "   " ("Property_Result : " ++ f.returnType ++ ";") ++ "begin\n" := by
  -- The texts are told apart at the ends of lines and at what is put in.
  have hnode : "  (Node : access " = "  " ++ "(Node : access " := by decide
  have hself : "   Self : " = "   " ++ "Self : " := by decide
  have hresult : "   Property_Result : " = "   " ++ "Property_Result : " := by decide
  have his : "is\n" = "is" ++ "\n" := by decide
  have hbegin : "begin\n" = "begin" ++ "\n" := by decide
  have hparameters : f.parameters = "(Node : access " ++ (f.owner ++ ("_Type'Class" ++
      if f.hasImplicitEnv = true then "; Current_Env : AST_Envs.Lexical_Env)" else ")")) := by
    have henv : "; Current_Env : AST_Envs.Lexical_Env)" =
        "; Current_Env : AST_Envs.Lexical_Env" ++ ")" := by decide
    have hwhole : f.parameters = "(Node : access " ++ f.owner ++ "_Type'Class" ++
      (if f.hasImplicitEnv = true then "; Current_Env : AST_Envs.Lexical_Env" else "") ++ ")" := rfl
    rw [hwhole]
    split
    · rw [henv]
      simp only [String.append_assoc]
    · simp only [String.append_assoc, String.empty_append]
  simp only [headLines, hparameters, indented, hnode, hself, hresult, his, hbegin, List.map_append,
    List.map_cons, List.map_nil, List.map_map, Function.comp_def, String.join_append,
    String.join_cons, String.join_nil, String.append_empty, String.append_assoc]

theorem text_isWritten (f : FunctionContext) : f.IsWritten f.text := by
  refine ⟨filledLines f.pre, filledLines_isCut f.pre, ?_⟩
  have hend : ";\n" = ";" ++ "\n" := by decide
  have hclosing : String.join (f.closing.map fun s => indented "   " s.text) =
      String.join ((f.closingLines.map ("   " ++ ·)).map (· ++ "\n")) := by
    rw [← indentedAll_eq, ← f.closingLines_eq, List.map_map]
    rfl
  have htext : f.text = String.join (f.headLines.map (· ++ "\n")) ++
      String.join ((filledLines f.pre).map (indented "   ")) ++
      String.join (f.closing.map fun s => indented "   " s.text) ++ f.handlerText ++
      "end " ++ f.functionName ++ ";\n" := by
    rw [f.headLines_eq]
    rfl
  rw [htext, hend, hclosing, indentedAll_eq, f.handlerText_eq]
  simp only [writtenLines, List.map_append, String.join_append, List.map_cons, List.map_nil,
    String.join_cons, String.join_nil, String.append_empty, String.append_assoc]

end FunctionContext

end FrontEnd
