import FrontEnd.Proofs.Cutting
import FrontEnd.Proofs.Parsing
import FrontEnd.Proofs.Printing
import FrontEnd.Proofs.Quoting
import Mathlib

-- Mathlib is imported whole: no module of it alone passes on `Int.toInt?_repr`.

namespace FrontEnd.Expr

section

variable {cs : List Char} {e : Expr} {es : List Expr} {depth : Nat}

/-- The written form derives what it is read as, alone and where an operand is expected. -/
structure Written (e : Expr) : Prop where
  alone : Scans e.display.toList (Derives · e.readForm e.nesting)
  operand : ∃ depth, operandNesting e e.nesting = depth + 1 ∧
    Scans (asOperand e e.display).toList (DerivesChain · e.readForm depth)

theorem Written.of_atomic (ha : e.isAtomic = true) (hn : e.nesting = depth + 1)
    (h : Scans e.display.toList (DerivesChain · e.readForm depth)) : Written e where
  alone := h.mono fun _ hc => hn ▸ .chain hc
  operand := by
    refine ⟨depth, ?_, ?_⟩
    · rw [operandNesting_of_atomic ha, hn]
    · rw [asOperand_of_atomic ha]
      exact h

theorem scans_parens (h : Scans cs (Derives · e depth)) :
    Scans ('(' :: (cs ++ [')'])) (DerivesChain · e depth) := by
  refine (h.bracketed rfl rfl).mono ?_
  rintro _ ⟨l, us, r, rfl, hl, hus, hr⟩
  exact .parens hl hus hr

theorem Written.of_operation (ha : e.isAtomic = false)
    (h : Scans e.display.toList (Derives · e.readForm e.nesting)) : Written e where
  alone := h
  operand := by
    -- The parentheses make an atom, inside which the whole operation counts.
    refine ⟨e.nesting, operandNesting_of_not_atomic ha _, ?_⟩
    rw [asOperand_of_not_atomic ha]
    simpa using scans_parens h

theorem endsWord_writtenOperands (es : List Expr) : EndsWord (writtenOperands es) := by
  cases es with
  | nil => exact endsWord_nil
  | cons e es => exact endsWord_cons.mpr rfl

theorem scans_operand (h : Written e) :
    Scans (asOperand e e.display).toList (Derives · e.readForm (operandNesting e e.nesting)) := by
  obtain ⟨depth, hn, hscan⟩ := h.operand
  exact hscan.mono fun _ hc => hn ▸ .chain hc

theorem scans_operands (h : ∀ e ∈ es, Written e) :
    Scans (writtenOperands es) (DerivesAll · (es.map readForm) (nestingAll es)) := by
  induction es with
  | nil => exact scans_nil.mono fun _ hts => hts ▸ .nil
  | cons e es ih =>
    rw [List.forall_mem_cons] at h
    have hall := (scans_operand h.1).append (endsWord_writtenOperands es) (ih h.2)
    rw [writtenOperands_cons]
    refine hall.space.mono ?_
    rintro _ ⟨us, vs, rfl, hus, hvs⟩
    exact .cons hus hvs

theorem scans_elements (h : ∀ e ∈ es, Written e) :
    Scans (" ".intercalate (displayAll es)).toList
      (DerivesAll · (readFormAll es) (nestingAll es)) := by
  rw [readFormAll_eq_map]
  cases es with
  | nil => exact scans_nil.mono fun _ hts => hts ▸ .nil
  | cons e es =>
    rw [List.forall_mem_cons] at h
    rw [intercalate_displayAll]
    refine ((scans_operand h.1).append (endsWord_writtenOperands es) (scans_operands h.2)).mono ?_
    rintro _ ⟨us, vs, rfl, hus, hvs⟩
    exact .cons hus hvs

theorem isIdentifier_operation (op : Operation) : IsIdentifier op.name := by
  cases op <;> exact ⟨_, _, rfl, rfl, rfl, rfl⟩

theorem ofName_name (op : Operation) : Operation.ofName? op.name = some op := by
  cases op <;> rfl

theorem WrittenAs.written {op : Operation} (hw : WrittenAs e op es) (h : ∀ e ∈ es, Written e) :
    Written e := by
  have hname : Scans op.name.toList (IsToken .ident op.name) :=
    scans_identifier (isIdentifier_operation op)
  refine .of_operation hw.not_isAtomic ?_
  rw [hw.display_eq, hw.nesting_eq]
  refine (hname.append (endsWord_writtenOperands es) (scans_operands h)).mono ?_
  rintro _ ⟨_, vs, rfl, ⟨t, rfl, hk, ht⟩, hvs⟩
  have hop : Operation.ofName? t.text = some op := ht ▸ ofName_name op
  have hlen : (es.map readForm).length = op.arity := (List.length_map readForm).trans hw.length_eq
  exact .operation hk hop hvs hlen hw.build_eq

theorem written_array (h : ∀ e ∈ es, Written e) : Written (.array es) := by
  have hdisplay : (array es).display.toList =
      '[' :: ((" ".intercalate (displayAll es)).toList ++ [']']) := by
    change ("[" ++ " ".intercalate (displayAll es) ++ "]").toList = _
    simp
  have hnesting : (array es).nesting = nestingAll es + 1 := by rw [nesting]
  refine .of_atomic rfl hnesting ?_
  rw [hdisplay, readForm]
  refine ((scans_elements h).bracketed rfl rfl).mono ?_
  rintro _ ⟨l, us, r, rfl, hl, hus, hr⟩
  exact .array hl hus hr

theorem written_field {name : String} (hname : IsIdentifier name) (h : Written e) :
    Written (.field e name) := by
  obtain ⟨depth, hn, hscan⟩ := h.operand
  have hdot : Cut.single? '.' = some .dot := rfl
  have hdisplay : (field e name).display.toList =
      (asOperand e e.display).toList ++ '.' :: name.toList := by
    change (asOperand e e.display ++ "." ++ name).toList = _
    simp
  have hnesting : (field e name).nesting = depth + 1 := by rw [nesting, hn]
  refine .of_atomic rfl hnesting ?_
  rw [hdisplay, readForm]
  refine (hscan.append (endsWord_cons.mpr rfl) ((scans_identifier hname).single hdot)).mono ?_
  rintro _ ⟨us, _, rfl, hus, d, _, rfl, hd, u, rfl, hu, rfl⟩
  exact .field hus hd hu

theorem digits_of_nat (k : Nat) :
    ∃ c cs, (toString k).toList = c :: cs ∧ c.isDigit = true ∧ ∀ d ∈ cs, d.isDigit = true := by
  have hdigit (d : Char) (hd : d ∈ Nat.toDigits 10 k) : d.isDigit = true :=
    Nat.isDigit_of_mem_toDigits (by decide) (by decide) hd
  obtain ⟨c, cs, hcs⟩ := List.exists_cons_of_ne_nil (Nat.toDigits_ne_nil : Nat.toDigits 10 k ≠ [])
  rw [hcs, List.forall_mem_cons] at hdigit
  refine ⟨c, cs, ?_, hdigit.1, hdigit.2⟩
  rw [Nat.toString_eq_ofList_toDigits, hcs, String.toList_ofList]

theorem digits_of_int (n : Int) :
    ∃ c cs, (toString n).toList = c :: cs ∧
      (c.isDigit = true ∨ c = '-' ∧ ∃ d ∈ cs.head?, d.isDigit = true) ∧
      ∀ d ∈ cs, d.isDigit = true := by
  cases n with
  | ofNat k =>
    obtain ⟨c, cs, heq, hc, hcs⟩ := digits_of_nat k
    exact ⟨c, cs, heq, .inl hc, hcs⟩
  | negSucc k =>
    obtain ⟨c, cs, heq, hc, hcs⟩ := digits_of_nat (k + 1)
    have htext : (toString (Int.negSucc k)).toList = '-' :: c :: cs := by
      change ("-" ++ toString (k + 1)).toList = _
      rw [String.toList_append, heq]
      rfl
    exact ⟨'-', c :: cs, htext, .inr ⟨rfl, c, rfl, hc⟩, List.forall_mem_cons.mpr ⟨hc, hcs⟩⟩

theorem withoutUnderscores_toString (n : Int) :
    withoutUnderscores (toString n) = toString n := by
  obtain ⟨c, cs, heq, hc, hcs⟩ := digits_of_int n
  have hall : ∀ d ∈ (toString n).toList, d ≠ '_' := by
    rw [heq, List.forall_mem_cons]
    constructor
    · rintro rfl
      rcases hc with hc | ⟨hc, -⟩ <;> cases hc
    · rintro d hd rfl
      cases hcs _ hd
  have hfilter : (toString n).toList.filter (· != '_') = (toString n).toList :=
    List.filter_eq_self.mpr fun d hd => bne_iff_ne.mpr (hall d hd)
  rw [withoutUnderscores, hfilter, String.ofList_toList]

theorem Written.of_leaf (ha : e.isAtomic = true) (hn : e.nesting = 1)
    (h : Scans e.display.toList (DerivesChain · e.readForm 0)) : Written e := of_atomic ha hn h

theorem written_word {p : String × Expr} (hp : p ∈ constants) : Written p.2 := by
  have hscan (h : IsIdentifier p.1) : Scans p.1.toList (DerivesChain · p.2 0) := by
    refine (scans_identifier h).mono ?_
    rintro _ ⟨t, rfl, hk, ht⟩
    exact .constant hk (ht ▸ hp)
  simp only [constants, List.mem_cons, List.not_mem_nil, or_false] at hp
  rcases hp with rfl | rfl | rfl
  all_goals
    refine .of_leaf rfl (by rw [nesting]) ?_
    rw [readForm]
    exact hscan ⟨_, _, rfl, rfl, rfl, rfl⟩

theorem written_bool (b : Bool) : Written (.literal (.bool b)) := by
  have hword : Scans (literalText (.bool b)).toList (IsToken .bool (literalText (.bool b))) := by
    cases b with
    | false => exact scans_word (c := 'f') rfl rfl
    | true => exact scans_word (c := 't') rfl rfl
  have hvalue : (literalText (.bool b) == "true") = b := by cases b <;> rfl
  refine .of_leaf rfl (by rw [nesting]) ?_
  have hform : (literal (.bool b)).readForm = literal (.bool b) := by simp [readForm, readLiteral]
  rw [hform]
  refine hword.mono ?_
  rintro _ ⟨t, rfl, hk, ht⟩
  have htext : (t.text == "true") = b := ht ▸ hvalue
  rw [← htext]
  exact .bool hk

theorem written_text (s : String) : Written (.literal (.text s)) := by
  refine .of_leaf rfl (by rw [nesting]) ?_
  rw [readForm, readLiteral]
  have hquoted := scans_quoted (untilQuote_escaped s.toList)
  have hdisplay : (literal (.text s)).display.toList =
      '"' :: (s.toList.flatMap Text.escapeChar ++ ['"']) := by
    change (Text.quote s).toList = _
    simp [Text.quote]
  rw [hdisplay]
  refine hquoted.mono ?_
  rintro _ ⟨t, rfl, hk, ht⟩
  have htext : t.text.toList = s.toList.flatMap Text.escapeChar := by
    rw [ht, String.toList_ofList]
  exact htext ▸ .string hk

theorem written_int (n : Int64) : Written (.literal (.int n)) := by
  obtain ⟨c, cs, heq, hc, hcs⟩ := digits_of_int n.toInt
  have hnumber := scans_number hc fun d hd => by simp [Cut.isNumberRest, hcs d hd]
  have hdisplay : (literal (.int n)).display = toString n.toInt := rfl
  have hvalue : (withoutUnderscores (toString n.toInt)).toInt? = some n.toInt := by
    rw [withoutUnderscores_toString]
    exact Int.toInt?_repr n.toInt
  refine .of_leaf rfl (by rw [nesting]) ?_
  have hform : (literal (.int n)).readForm = literal (.int n) := by simp [readForm, readLiteral]
  rw [hform, hdisplay, heq]
  refine hnumber.mono ?_
  rintro _ ⟨t, rfl, hk, ht⟩
  have htext : t.text = toString n.toInt := by
    rw [ht, ← heq, String.ofList_toList]
  exact .int hk (htext ▸ hvalue)

theorem written (e : Expr)
    (h : ∀ receiver name, field receiver name ∈ e.nodes → IsIdentifier name) : Written e := by
  -- The induction follows the written form, in which all operations are alike.
  induction e using written_induction with
  | literal value =>
    match value with
    | .bool b => exact written_bool b
    | .int n => exact written_int n
    | .text s => exact written_text s
  | word p hp => exact written_word hp
  | field receiver name ih =>
    refine written_field (h receiver name (by simp [nodes])) (ih fun r n hn => h r n ?_)
    rw [nodes]
    exact List.mem_cons_of_mem _ hn
  | array elements ih =>
    refine written_array fun x hx => ih x hx fun r n hn => h r n ?_
    rw [nodes, nodesAll_eq_flatMap]
    exact List.mem_cons_of_mem _ (List.mem_flatMap.mpr ⟨x, hx, hn⟩)
  | operation e op xs hw ih =>
    refine hw.written fun x hx => ih x hx fun receiver name hn => ?_
    exact h receiver name (hw.field_mem_nodes hx hn)

/-- The text is read as the expression, unless it needs more levels than there are. -/
def ReadsAs (text : String) (e : Expr) (depth : Nat) : Prop :=
  (depth ≤ maxNesting → parse text = .ok e) ∧
    (maxNesting < depth →
      ∃ position, parse text = .error (.parse (ParseError.message ⟨.tooDeep, position⟩)))

theorem Scans.readsAs {text : String} (h : Scans text.toList (Derives · e depth)) :
    ReadsAs text e depth := by
  obtain ⟨hder, hproblems⟩ := h.ofText 0
  constructor
  · intro hle
    exact parse_eq_ok_iff.mpr ⟨hproblems, ofTokens_derives.mpr ⟨depth, hle, hder⟩⟩
  · intro hlt
    have hdeep : ∃ position, ofTokens (Scan.ofText 0 text).stop _ = .error ⟨.tooDeep, position⟩ :=
      ofTokens_tooDeep hder hlt
    obtain ⟨position, heq⟩ := hdeep
    refine ⟨position, ?_⟩
    unfold parse
    dsimp only
    rw [hproblems]
    dsimp only
    rw [Scan.read_stream, heq]

/-- Printing and then reading, exactly: where the fields have names that can be read, the written
form is read as `readForm` if its parentheses and operations are nested no deeper than `maxNesting`,
and is found nested too deeply otherwise. -/
theorem parse_display (e : Expr)
    (h : ∀ receiver name, field receiver name ∈ e.nodes → IsIdentifier name) :
    (e.nesting ≤ maxNesting → parse e.display = .ok e.readForm) ∧
      (maxNesting < e.nesting → ∃ position,
        parse e.display = .error (.parse (ParseError.message ⟨.tooDeep, position⟩))) :=
  (written e h).alone.readsAs

/-- Listed environments are read as an array, and a lookup of the first entry is no longer
sequential. -/
theorem parse_display_lookup :
    parse "recursive (resolve_unique (group [Env]) Self.name) false" =
      .ok (.lookup (.group (.array [.env])) (.field .self "name") (ofBool false) false true) := by
  have hread := parse_display
    (.lookup (.groupAll [.env]) (.field .self "name") (ofBool false) true true)
    (by
      intro receiver name hn
      have heq : receiver = self ∧ name = "name" := by simpa [nodes, nodesAll, ofBool] using hn
      exact heq.2 ▸ ⟨_, _, rfl, rfl, rfl, rfl⟩)
  exact hread.1 (by decide)

end

end FrontEnd.Expr
