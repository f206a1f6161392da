import FrontEnd.Proofs.RoundTrip

/-!
What was read can be written and read again. The parser never makes the forms that reading changes,
so only two things stand in the way: texts with characters whose escapes reading does not know, and
the parentheses of the written form, which count as levels of nesting where the source had none.
-/
namespace FrontEnd.Expr

/-- The node is one that reading makes: its field has a name, no environments are listed outside an
array, and a lookup of the first entry is not sequential. -/
def IsRead : Expr → Prop
  | field _ name => IsIdentifier name
  | lookup _ _ _ sequential unique => (sequential && unique) = false
  | groupAll _ => False
  | _ => True

section

variable {e : Expr} {es : List Expr}

theorem Operation.isRead_of_build {op : Operation} (hb : op.build? es = some e)
    (h : ∀ x ∈ es, ∀ n ∈ x.nodes, n.IsRead) : ∀ n ∈ e.nodes, n.IsRead := by
  unfold Operation.build? at hb
  split at hb <;> cases hb <;>
    simp only [List.forall_mem_cons, nodes, ofBool, List.forall_mem_append] at h ⊢
  case h_1 | h_2 | h_3 =>
    obtain ⟨henv, hkey, -⟩ := h
    exact ⟨rfl, ⟨henv, hkey⟩, trivial, List.forall_mem_nil _⟩
  case h_4 =>
    -- The lookup was read before, and only its flag is replaced.
    obtain ⟨⟨hlookup, hparts, -⟩, hflag, -⟩ := h
    exact ⟨hlookup, hparts, hflag⟩
  case h_5 | h_8 =>
    obtain ⟨hleft, hright, -⟩ := h
    exact ⟨trivial, hleft, hright⟩
  case h_6 | h_7 | h_9 => exact ⟨trivial, h.1⟩

end

mutual

theorem Derives.isRead {ts : List Token} {e : Expr} {depth : Nat} (hd : Derives ts e depth)
    (h : ∀ t ∈ ts, t.kind = .ident → IsIdentifier t.text) : ∀ n ∈ e.nodes, n.IsRead := by
  match hd with
  | .operation _ _ hs _ hb =>
    exact Operation.isRead_of_build hb (hs.isRead fun t ht => h t (List.mem_cons_of_mem _ ht))
  | .chain hc => exact hc.isRead h

theorem DerivesChain.isRead {ts : List Token} {e : Expr} {depth : Nat}
    (hd : DerivesChain ts e depth) (h : ∀ t ∈ ts, t.kind = .ident → IsIdentifier t.text) :
    ∀ n ∈ e.nodes, n.IsRead := by
  match hd with
  | .int _ _ | .string _ | .bool _ => simp [nodes, IsRead, ofBool]
  | .constant _ he =>
    simp only [constants, List.mem_cons, Prod.mk.injEq, List.not_mem_nil, or_false] at he
    rcases he with ⟨-, rfl⟩ | ⟨-, rfl⟩ | ⟨-, rfl⟩ <;> simp [nodes, IsRead]
  | .parens _ he _ =>
    exact he.isRead fun t ht => h t (List.mem_cons_of_mem _ (List.mem_append_left _ ht))
  | .array _ hs _ =>
    rw [nodes, nodesAll_eq_flatMap, List.forall_mem_cons, List.forall_mem_flatMap]
    refine ⟨trivial, hs.isRead fun t ht => h t ?_⟩
    exact List.mem_cons_of_mem _ (List.mem_append_left _ ht)
  | .field (u := u) hc _ hu =>
    rw [nodes, List.forall_mem_cons]
    refine ⟨h u (by simp) hu, hc.isRead fun t ht => h t (List.mem_append_left _ ht)⟩

theorem DerivesAll.isRead {ts : List Token} {es : List Expr} {depth : Nat}
    (hd : DerivesAll ts es depth) (h : ∀ t ∈ ts, t.kind = .ident → IsIdentifier t.text) :
    ∀ x ∈ es, ∀ n ∈ x.nodes, n.IsRead := by
  match hd with
  | .nil => exact List.forall_mem_nil _
  | .cons he hs =>
    rw [List.forall_mem_cons]
    exact ⟨he.isRead fun t ht => h t (List.mem_append_left _ ht),
      hs.isRead fun t ht => h t (List.mem_append_right _ ht)⟩

end

def KeepsForm : Expr → Prop
  | literal value => readLiteral value = value
  | lookup _ _ _ sequential unique => (sequential && unique) = false
  | groupAll _ => False
  | _ => True

mutual

theorem readForm_eq_self (e : Expr) (h : ∀ n ∈ e.nodes, n.KeepsForm) : e.readForm = e := by
  -- By recursion over the tree: only constants, flags of lookups and groups could change.
  match e with
  | .literal value =>
    have hvalue : readLiteral value = value := h _ List.mem_cons_self
    rw [readForm, hvalue]
  | .self | .env | .emptyEnv => rw [readForm]
  | .field receiver name =>
    obtain ⟨-, hreceiver⟩ := List.forall_mem_cons.mp h
    rw [readForm, readForm_eq_self receiver hreceiver]
  | .array elements =>
    obtain ⟨-, helements⟩ := List.forall_mem_cons.mp h
    rw [readForm, readFormAll_eq_self elements helements]
  | .lookup e key recursive sequential unique =>
    obtain ⟨hflags, hparts⟩ := List.forall_mem_cons.mp h
    rw [List.forall_mem_append, List.forall_mem_append] at hparts
    obtain ⟨⟨he, hkey⟩, hrecursive⟩ := hparts
    have hsequential : (sequential && !unique) = sequential := by
      cases unique with
      | false => rw [Bool.not_false, Bool.and_true]
      | true => rw [← Bool.and_true sequential, hflags]; rfl
    rw [readForm, readForm_eq_self e he, readForm_eq_self key hkey,
      readForm_eq_self recursive hrecursive, hsequential]
  | .evalInEnv e body =>
    obtain ⟨-, hparts⟩ := List.forall_mem_cons.mp h
    obtain ⟨he, hbody⟩ := List.forall_mem_append.mp hparts
    rw [readForm, readForm_eq_self e he, readForm_eq_self body hbody]
  | .orphan e =>
    obtain ⟨-, he⟩ := List.forall_mem_cons.mp h
    rw [readForm, readForm_eq_self e he]
  | .group envs =>
    obtain ⟨-, henvs⟩ := List.forall_mem_cons.mp h
    rw [readForm, readForm_eq_self envs henvs]
  | .groupAll envs =>
    obtain ⟨hfalse, -⟩ := List.forall_mem_cons.mp h
    exact hfalse.elim
  | .isVisibleFrom referenced base =>
    obtain ⟨-, hparts⟩ := List.forall_mem_cons.mp h
    obtain ⟨hreferenced, hbase⟩ := List.forall_mem_append.mp hparts
    rw [readForm, readForm_eq_self referenced hreferenced, readForm_eq_self base hbase]
  | .envNode e =>
    obtain ⟨-, he⟩ := List.forall_mem_cons.mp h
    rw [readForm, readForm_eq_self e he]

theorem readFormAll_eq_self (es : List Expr) (h : ∀ n ∈ nodesAll es, n.KeepsForm) :
    readFormAll es = es := by
  match es with
  | [] => rfl
  | e :: es =>
    obtain ⟨he, hes⟩ := List.forall_mem_append.mp h
    rw [readFormAll, readForm_eq_self e he, readFormAll_eq_self es hes]

end

theorem readLiteral_eq_self {value : Literal}
    (h : ∀ s, value = .text s → ∀ c ∈ s.toList, Text.IsReadable c) : readLiteral value = value := by
  match value with
  | .bool _ | .int _ => rfl
  | .text s =>
    rw [readLiteral, unescape_escaped (h s rfl), String.ofList_toList]

theorem IsRead.keepsForm {n : Expr} (hn : n.IsRead)
    (h : ∀ s, n = literal (.text s) → ∀ c ∈ s.toList, Text.IsReadable c) : n.KeepsForm := by
  match n with
  | .literal value => exact readLiteral_eq_self fun s hs => h s (congrArg literal hs)
  | .lookup .. | .groupAll _ => exact hn
  | .self | .env | .emptyEnv | .field .. | .array _ | .evalInEnv .. | .orphan _ | .group _
  | .isVisibleFrom .. | .envNode _ => exact trivial

/-- What was read is printed in a form that is read back, exactly: where reading knows the escapes
of all texts in the expression, the written form is read as the same expression if it is nested no
deeper than `maxNesting`, and is found nested too deeply otherwise. -/
theorem parse_display_of_parse {text : String} {e : Expr} (h : parse text = .ok e)
    (hl : ∀ s, literal (.text s) ∈ e.nodes → ∀ c ∈ s.toList, Text.IsReadable c) :
    (e.nesting ≤ maxNesting → parse e.display = .ok e) ∧
      (maxNesting < e.nesting → ∃ position,
        parse e.display = .error (.parse (ParseError.message ⟨.tooDeep, position⟩))) := by
  obtain ⟨-, htokens⟩ := parse_eq_ok_iff.mp h
  -- The levels of the source say nothing about those of the written form.
  obtain ⟨depth, -, hder⟩ := ofTokens_derives.mp htokens
  have hread : ∀ n ∈ e.nodes, n.IsRead := hder.isRead fun t => isIdentifier_of_mem_tokens
  have hwritten : Written e := written e fun receiver name hn => hread _ hn
  have hform : e.readForm = e :=
    readForm_eq_self e fun n hn => (hread n hn).keepsForm fun s hs => hl s (hs ▸ hn)
  have hback := hwritten.alone.readsAs
  rwa [hform] at hback

/-- Parentheses of the source are not printed, and the escape of a quote is read back. -/
theorem parse_display_of_parse_quote :
    parse "(resolve_unique Env \"a\\\"b\")" =
        .ok (.lookup .env (.literal (.text "a\"b")) (ofBool true) false true) ∧
      parse "resolve_unique Env \"a\\\"b\"" =
        .ok (.lookup .env (.literal (.text "a\"b")) (ofBool true) false true) := by
  let e : Expr := .lookup .env (.literal (.text "a\"b")) (ofBool true) false true
  have hwritten : Written e := written e fun _ _ hn => by simp [e, nodes, ofBool] at hn
  have hsource : ReadsAs ("(" ++ e.display ++ ")") e.readForm (e.nesting + 1) := by
    refine Scans.readsAs ?_
    rw [String.toList_append, String.toList_append]
    exact (scans_parens hwritten.alone).mono fun _ hc => .chain hc
  have hparse : parse "(resolve_unique Env \"a\\\"b\")" = .ok e := hsource.1 (by decide)
  have hreadable (s : String) (hs : literal (.text s) ∈ e.nodes) :
      ∀ c ∈ s.toList, Text.IsReadable c := by
    have heq : s.toList = ['a', '"', 'b'] := by
      have htext : s = "a\"b" := by simpa [e, nodes, ofBool] using hs
      rw [htext]
      rfl
    rw [heq, List.forall_mem_cons, List.forall_mem_cons, List.forall_mem_singleton]
    exact ⟨by decide, by decide, by decide⟩
  exact ⟨hparse, (parse_display_of_parse hparse hreadable).1 (by decide)⟩

def orphans : Nat → Expr
  | 0 => env
  | n + 1 => orphan (orphans n)

def orphansText : Nat → String
  | 0 => "Env"
  | n + 1 => "orphan " ++ orphansText n

theorem scans_orphansText (n : Nat) :
    Scans (orphansText n).toList (Derives · (orphans n) (n + 1)) := by
  induction n with
  | zero =>
    have henv : IsIdentifier "Env" := ⟨_, _, rfl, rfl, rfl, rfl⟩
    refine (scans_identifier henv).mono ?_
    rintro _ ⟨t, rfl, hk, ht⟩
    exact .chain (.constant hk (ht ▸ List.mem_cons_of_mem _ List.mem_cons_self))
  | succ n ih =>
    have hname := scans_identifier (isIdentifier_operation .orphan)
    have htext : (orphansText (n + 1)).toList =
        Operation.orphan.name.toList ++ ' ' :: (orphansText n).toList := by
      simp [orphansText, Operation.name]
    rw [htext]
    refine (hname.append (endsWord_cons.mpr rfl) ih.space).mono ?_
    rintro _ ⟨_, us, rfl, ⟨t, rfl, hk, ht⟩, hus⟩
    -- Without parentheses the operation adds one level to its operand.
    have hop : Operation.ofName? t.text = some .orphan := ht ▸ ofName_name .orphan
    have hall : DerivesAll us [orphans n] (n + 1) := by
      have hone := DerivesAll.cons hus .nil
      rwa [List.append_nil, Nat.max_zero] at hone
    exact .operation hk hop hall rfl rfl

/-- The parentheses of the written form take one level more for each operation but the first. -/
theorem nesting_orphans (n : Nat) : (orphans (n + 1)).nesting = 2 * n + 2 := by
  induction n with
  | zero => rfl
  | succ n ih =>
    have hcompound : (orphans (n + 1)).isAtomic = false := rfl
    rw [orphans, nesting, ih, operandNesting_of_not_atomic hcompound]
    omega

theorem written_orphans (n : Nat) : Written (orphans n) := by
  induction n with
  | zero => exact written_word (p := ("Env", env)) (List.mem_cons_of_mem _ List.mem_cons_self)
  | succ n ih => exact (WrittenAs.orphan (orphans n)).written (List.forall_mem_singleton.mpr ih)

/-- What was read is not always read back: with 129 operations the parentheses of the written form
are nested too deeply, and a carriage return is written by an escape that is read as a letter. -/
theorem parse_display_of_parse_fails :
    (parse (orphansText 129) = .ok (orphans 129) ∧
      parse (orphans 129).display ≠ .ok (orphans 129)) ∧
    (parse "\"\r\"" = .ok (.literal (.text "\r")) ∧
      parse (literal (.text "\r")).display = .ok (.literal (.text "r"))) := by
  -- The source has 130 levels, the written form 258.
  have hdeep : maxNesting < (orphans 129).nesting := by
    rw [nesting_orphans]
    decide
  obtain ⟨position, hback⟩ := (written_orphans 129).alone.readsAs.2 hdeep
  have hreturn : Scans "\"\r\"".toList (Derives · (.literal (.text "\r")) 1) := by
    have hbody (rest : List Char) :
        Piece.untilQuote (['\r'] ++ '"' :: rest) = some (['\r'], rest) := rfl
    refine (scans_quoted hbody).mono ?_
    rintro _ ⟨t, rfl, hk, ht⟩
    have hstring := DerivesChain.string hk
    rw [ht] at hstring
    exact .chain hstring
  refine ⟨⟨(scans_orphansText 129).readsAs.1 (by decide), ?_⟩, hreturn.readsAs.1 (by decide), ?_⟩
  · rw [hback]
    intro heq
    cases heq
  · exact (written_text "\r").alone.readsAs.1 (by decide)

end FrontEnd.Expr
