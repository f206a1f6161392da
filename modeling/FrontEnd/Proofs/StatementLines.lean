import FrontEnd.Proofs.TermWords

namespace FrontEnd

namespace FunctionContext

def lines (text : String) : List String := (linesFrom [] text.toList).map String.ofList

theorem filledLines_eq (text : String) : filledLines text = (lines text).filter (· ≠ "") := by
  have hfilled : ((fun s : String => decide (s ≠ "")) ∘ String.ofList) = (!·.isEmpty) := by
    funext l
    cases l <;> simp
  rw [filledLines, lines, List.filter_map, hfilled]

section

variable {cs line rest : List Char}

/-- A line ends at the next line end; `line` is what of it has been passed, backwards. -/
theorem linesFrom_append (hcs : '\n' ∉ cs) :
    linesFrom line (cs ++ '\n' :: rest) =
      withoutReturn (line.reverse ++ cs) :: linesFrom [] rest := by
  induction cs generalizing line with
  | nil => simp [linesFrom]
  | cons c cs ih =>
    rw [List.mem_cons, not_or] at hcs
    rw [List.cons_append, linesFrom, if_neg (Ne.symm hcs.1), ih hcs.2]
    simp

theorem linesFrom_last (hcs : '\n' ∉ cs) (hne : line.reverse ++ cs ≠ []) :
    linesFrom line cs = [line.reverse ++ cs] := by
  induction cs generalizing line with
  | nil =>
    rw [linesFrom, if_neg (by simpa using hne), List.append_nil]
  | cons c cs ih =>
    rw [List.mem_cons, not_or] at hcs
    rw [linesFrom, if_neg (Ne.symm hcs.1), ih hcs.2 (by simp)]
    simp

theorem newline_notMem_of_line (hline : '\n' ∉ line) {l : List Char} (hl : l ∈ linesFrom line cs) :
    '\n' ∉ l := by
  induction cs generalizing line with
  | nil =>
    rw [linesFrom] at hl
    split at hl
    · cases hl
    · rw [List.mem_singleton.mp hl]
      simpa using hline
  | cons c cs ih =>
    rw [linesFrom] at hl
    split at hl
    · rcases List.mem_cons.mp hl with rfl | hl
      · -- Nothing is added to what has been passed; a carriage return may be taken away.
        unfold withoutReturn
        split
        · exact fun hmem => hline (List.mem_reverse.mp (List.mem_of_mem_dropLast hmem))
        · simpa using hline
      · exact ih (by simp) hl
    · rename_i hc
      exact ih (by simp [hline, Ne.symm hc]) hl

end

/-- There is something in the text, and no carriage return at its end. -/
structure Filled (s : String) : Prop where
  ne_nil : s.toList ≠ []
  last : s.toList.getLast? ≠ some '\r'

variable {xs : List String}

theorem lines_whole {text x : String} (hx : x ∈ lines text) : ¬ Breaks x := by
  obtain ⟨l, hl, rfl⟩ := List.mem_map.mp hx
  rw [breaks_ofList]
  exact newline_notMem_of_line List.not_mem_nil hl

theorem lines_intercalate (hxs : ∀ x ∈ xs, Filled x) (h : ∀ x ∈ xs, ¬ Breaks x) :
    lines ("\n".intercalate xs) = xs := by
  cases xs with
  | nil => rfl
  | cons x xs =>
    induction xs generalizing x with
    | nil =>
      have hne : [].reverse ++ x.toList ≠ [] := (hxs x List.mem_cons_self).ne_nil
      rw [String.intercalate_singleton, lines, linesFrom_last (h x List.mem_cons_self) hne]
      simp
    | cons y xs ih =>
      obtain ⟨hx, hrest⟩ := List.forall_mem_cons.mp hxs
      obtain ⟨hwhole, hwholes⟩ := List.forall_mem_cons.mp h
      have hjoined : ("\n".intercalate (x :: y :: xs)).toList =
          x.toList ++ '\n' :: ("\n".intercalate (y :: xs)).toList := by
        rw [String.intercalate_cons_cons]
        simp
      -- A line that ends in no carriage return is shown as it is.
      have hreturn : withoutReturn x.toList = x.toList := if_neg hx.last
      calc
        lines ("\n".intercalate (x :: y :: xs)) =
            String.ofList (withoutReturn x.toList) :: lines ("\n".intercalate (y :: xs)) := by
          rw [lines, hjoined, linesFrom_append hwhole]
          rfl
        _ = x :: y :: xs := by rw [hreturn, String.ofList_toList, ih y hrest hwholes]

theorem lines_intercalate_iff (hxs : ∀ x ∈ xs, Filled x) :
    lines ("\n".intercalate xs) = xs ↔ ∀ x ∈ xs, ¬ Breaks x :=
  ⟨fun heq _ hx => lines_whole (heq ▸ hx), lines_intercalate hxs⟩

theorem filledLines_intercalate_iff (hxs : ∀ x ∈ xs, Filled x) :
    filledLines ("\n".intercalate xs) = xs ↔ ∀ x ∈ xs, ¬ Breaks x := by
  rw [filledLines_eq]
  constructor
  · intro heq x hx
    rw [← heq] at hx
    exact lines_whole (List.mem_filter.mp hx).1
  · intro h
    rw [lines_intercalate hxs h, List.filter_eq_self]
    intro x hx
    -- Only empty lines are dropped, and no filled text is one.
    have hne : x ≠ "" := fun hnil => (hxs x hx).ne_nil (by rw [hnil]; rfl)
    simpa using hne

/-- What the text of the function goes on with behind the statements of its property. -/
def behind (f : FunctionContext) : String :=
  String.join (f.closing.map fun s => indented "   " s.text) ++ f.handlerText ++
    "end " ++ f.functionName ++ ";\n"

theorem text_eq (f : FunctionContext) :
    ∃ opening, f.text = opening ++ "begin\n" ++
      String.join ((filledLines f.pre).map (indented "   ")) ++ f.behind := by
  obtain ⟨opening, htext⟩ : ∃ opening, f.text = opening ++ "begin\n" ++
      String.join ((filledLines f.pre).map (indented "   ")) ++
      String.join (f.closing.map fun s => indented "   " s.text) ++ f.handlerText ++
      "end " ++ f.functionName ++ ";\n" := ⟨_, rfl⟩
  refine ⟨opening, ?_⟩
  rw [htext, behind]
  simp only [String.append_assoc]

end FunctionContext

theorem Statement.filled (st : Statement) : FunctionContext.Filled st.text := by
  have hend : st.text.toList.getLast? = some ';' := by
    cases st with
    | assign x value =>
      change (x ++ " := " ++ value.text ++ ";").toList.getLast? = _
      rw [String.toList_append, List.getLast?_append]
      rfl
    | retain x =>
      change ("Inc_Ref (" ++ x ++ ");").toList.getLast? = _
      rw [String.toList_append, List.getLast?_append]
      rfl
  constructor
  · intro hnil
    rw [hnil] at hend
    cases hend
  · rw [hend]
    decide

/-- No text of the source that a statement of the property shows is broken over lines. -/
def Property.ShowsWhole (p : Property) : Prop :=
  ∀ st ∈ p.body.statements, ∀ s ∈ st.sources, '\n' ∉ s.toList

instance (p : Property) : Decidable p.ShowsWhole :=
  inferInstanceAs (Decidable (∀ st ∈ p.body.statements, ∀ s ∈ st.sources, '\n' ∉ s.toList))

namespace PropertyDecl

variable {h : Hierarchy} {p : PropertyDecl} {ir : Property}

theorem check_showsWhole_iff (hc : p.check h = .ok ir) :
    ir.ShowsWhole ↔ ∀ x ∈ ir.body.statements.map Statement.text, ¬ Breaks x := by
  rw [List.forall_mem_map]
  refine forall₂_congr fun st hst => ?_
  rw [check_breaks_iff hc hst]
  simp [Breaks]

/-- The statements of an accepted property assign each local and retain each bound one, once, and
they have a line each exactly where they show no text of the source that is broken over lines. Then
the function has them as they are, in their order and one a line, before its own statements. -/
theorem check_lines_iff (hc : p.check h = .ok ir) :
    ir.body.effects.Perm
        (ir.locals.map (.assign ·.name) ++ ir.body.boundLocals.map (.retain ·.name)) ∧
      (FunctionContext.lines ir.body.preText = ir.body.statements.map Statement.text ↔
        ir.ShowsWhole) ∧
      (FunctionContext.filledLines ir.function.pre = ir.body.statements.map Statement.text ↔
        ir.ShowsWhole) ∧
      (ir.ShowsWhole → ∃ opening, ir.function.text = opening ++ "begin\n" ++
        String.join (ir.body.statements.map fun st => FunctionContext.indented "   " st.text) ++
          ir.function.behind) := by
  have hfilled : ∀ x ∈ ir.body.statements.map Statement.text, FunctionContext.Filled x :=
    List.forall_mem_map.mpr fun st _ => st.filled
  have hlines := FunctionContext.lines_intercalate_iff hfilled
  have hcut := FunctionContext.filledLines_intercalate_iff hfilled
  rw [← check_showsWhole_iff hc] at hlines hcut
  obtain ⟨hlocals, -⟩ := check_locals hc
  refine ⟨?_, hlines, hcut, fun hwhole => ?_⟩
  · exact ir.body.effects_perm.trans ((hlocals.symm.map _).append_right _)
  · have hpre : FunctionContext.filledLines ir.function.pre =
        ir.body.statements.map Statement.text := hcut.mpr hwhole
    obtain ⟨opening, htext⟩ := ir.function.text_eq
    rw [hpre, List.map_map] at htext
    exact ⟨opening, htext⟩

end PropertyDecl

theorem Sample.property_lines :
    ∃ ir, property.check hierarchy = .ok ir ∧ ir.ShowsWhole ∧
      FunctionContext.filledLines ir.function.pre = ir.body.statements.map Statement.text := by
  obtain ⟨ir, hok, hwhole⟩ : ∃ ir, property.check hierarchy = .ok ir ∧ ir.ShowsWhole :=
    ⟨_, rfl, by decide⟩
  exact ⟨ir, hok, hwhole, (PropertyDecl.check_lines_iff hok).2.2.1.mpr hwhole⟩

def Sample.broken : PropertyDecl where
  signature := ⟨"Name", "broken", true⟩
  ty := none
  body := .lookup .env (.literal (.text "a\nb")) (.ofBool true) false false

def Sample.brokenIr : Property where
  signature := broken.signature
  body := .lookup ⟨.array .envElement, some ⟨"Env_Get_Result_0", Ty.array .envElement⟩⟩
    (.var ⟨.lexicalEnv, none⟩ "Current_Env") (.literal ⟨.symbol, none⟩ (.text "a\nb")) none
    (.literal ⟨.bool, none⟩ (.bool true)) false
  locals := [⟨"Env_Get_Result_0", Ty.array .envElement⟩]
  arrayTypes := [.array .envElement]

def Sample.brokenLines : List String :=
  ["Env_Get_Result_0 := Create (AST_Envs.Get (Self => Current_Env, " ++
      "Key => Find (Self.Unit.TDH.Symbols, \"a",
    "b\"), Recursive => True));"]

/-- A text of the source with a line end breaks its statement, and what is behind the line end is
indented in the function like a statement of its own. -/
theorem PropertyDecl.check_lines_fails :
    Sample.broken.check Sample.hierarchy = .ok Sample.brokenIr ∧
      Sample.brokenIr.body.statements.map Statement.text = ["\n".intercalate Sample.brokenLines] ∧
      FunctionContext.filledLines Sample.brokenIr.function.pre = Sample.brokenLines ∧
      ∃ opening, Sample.brokenIr.function.text = opening ++ "begin\n" ++
        String.join (Sample.brokenLines.map (FunctionContext.indented "   ")) ++
          Sample.brokenIr.function.behind := by
  have hstatement : Sample.brokenIr.body.statements.map Statement.text =
      ["\n".intercalate Sample.brokenLines] := by decide +kernel
  have hfilled : ∀ x ∈ Sample.brokenLines, FunctionContext.Filled x :=
    List.forall_mem_cons.mpr ⟨⟨by decide, by decide⟩,
      List.forall_mem_singleton.mpr ⟨by decide, by decide⟩⟩
  have hlines : FunctionContext.filledLines Sample.brokenIr.function.pre = Sample.brokenLines := by
    change FunctionContext.filledLines
      ("\n".intercalate (Sample.brokenIr.body.statements.map Statement.text)) = _
    rw [hstatement, String.intercalate_singleton,
      FunctionContext.filledLines_intercalate_iff hfilled]
    decide
  obtain ⟨opening, htext⟩ := Sample.brokenIr.function.text_eq
  rw [hlines] at htext
  exact ⟨rfl, hstatement, hlines, opening, htext⟩

end FrontEnd
